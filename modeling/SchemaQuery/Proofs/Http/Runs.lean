import SchemaQuery.Http.Server
import SchemaQuery.Proofs.Machine
import SchemaQuery.Proofs.Translation.Totality

/-!
# Runs of the server

What an event does to a server is said here once.  A request asks for a translation, or for a
reload, or it leaves the server as it is; a translation that fails fails in validation, and so
is the caller's fault.  From the steps follow runs: an event is answered from the state that
the earlier ones lead to, whatever comes later.

## Main definitions

* `Request.IsQuery`, `Request.IsReload` - the requests that can change a server.
* `Request.Posts` - the request posts to a route.
* `Server.translationResponse` - the response to a request for a translation.
* `Server.after` - the server after events.
* `Server.Answers` - how a request is answered in every run that gets to it.

## Main statements

* `Server.handleRequest_query`, `Server.handleRequest_reload`, `Server.handleRequest_other` -
  what a request does, by its kind.
* `Server.translateBody_cases` - **the three outcomes of a request for a translation.**
* `Server.answers_iff` - a request is answered from the state before it.
-/

namespace SchemaQuery.Http

/-! ## Kinds of requests -/

namespace Request

/-- A request that asks for a translation. -/
def IsQuery (r : Request) : Prop :=
  r.method = "POST" ∧
    (Route.ofTarget? r.target = some .query ∨ Route.ofTarget? r.target = some .explain)

/-- A request that asks for a reload. -/
def IsReload (r : Request) : Prop :=
  r.method = "POST" ∧ Route.ofTarget? r.target = some .reload

instance (r : Request) : Decidable r.IsQuery := inferInstanceAs (Decidable (_ ∧ _))

instance (r : Request) : Decidable r.IsReload := inferInstanceAs (Decidable (_ ∧ _))

/-- The request posts to the route. -/
structure Posts (r : Request) (route : Route) : Prop where
  method : r.method = "POST"
  route : Route.ofTarget? r.target = some route

end Request

/-- What a route for posting admits is posted. -/
theorem method_of_admits {route : Route} {method : String}
    (h : route.access.admits method = true) (haccess : route.access = .post) : method = "POST" := by
  simpa [haccess, Access.admits] using h

/-- Every rejection is the fault of the caller. -/
theorem isUserError_kind (e : ValidationError) : e.kind.isUserError = true := by
  cases e <;> rfl

namespace Server

variable {s : Server} {r : Request}

/-! ## What a request does -/

/-- A request that is answered as a route does, in full unless only the head is asked for. -/
theorem handleRequest_of_answer {route : Route} (hroute : Route.ofTarget? r.target = some route)
    (hadmits : route.access.admits r.method = true) (hhead : r.method ≠ "HEAD") :
    s.handleRequest r = ((s.answer r route).1.response s.startedAt, (s.answer r route).2) := by
  rw [handleRequest, reply, hroute]
  simp [hadmits, hhead]

/-- What is posted to a route is answered by the route. -/
theorem handleRequest_posts {route : Route} (h : r.Posts route) (haccess : route.access = .post) :
    (s.handleRequest r).1 = (s.answer r route).1.response s.startedAt := by
  have hadmits : route.access.admits r.method = true := by
    rw [haccess, h.method]
    rfl
  have hhead : r.method ≠ "HEAD" := by
    rw [h.method]
    decide
  rw [handleRequest_of_answer h.route hadmits hhead]

/-- A request for a translation is answered with one, with or without the plan. -/
theorem handleRequest_query (s : Server) (h : r.IsQuery) :
    ∃ withPlan, s.handleRequest r =
      ((s.translateBody r withPlan).1.response s.startedAt, (s.translateBody r withPlan).2) := by
  obtain ⟨hmethod, hroute | hroute⟩ := h
  · exact ⟨false,
      handleRequest_of_answer hroute (by rw [hmethod]; decide) (by rw [hmethod]; decide)⟩
  · exact ⟨true,
      handleRequest_of_answer hroute (by rw [hmethod]; decide) (by rw [hmethod]; decide)⟩

/-- A request for a reload is answered with one. -/
theorem handleRequest_reload (s : Server) (h : r.IsReload) :
    s.handleRequest r = (s.reload.1.response s.startedAt, s.reload.2) :=
  handleRequest_of_answer h.2 (by rw [h.1]; decide) (by rw [h.1]; decide)

/-- **Any other request leaves the server as it is.** -/
theorem handleRequest_other (s : Server) (hquery : ¬ r.IsQuery) (hreload : ¬ r.IsReload) :
    (s.handleRequest r).2 = s := by
  show (s.reply r).2 = s
  unfold reply
  cases hroute : Route.ofTarget? r.target with
  | none => rfl
  | some route =>
      dsimp only
      split_ifs with hadmits
      · cases route with
        | health | models | model | metrics => rfl
        | query => exact absurd ⟨method_of_admits hadmits rfl, .inl hroute⟩ hquery
        | explain => exact absurd ⟨method_of_admits hadmits rfl, .inr hroute⟩ hquery
        | reload => exact absurd ⟨method_of_admits hadmits rfl, hroute⟩ hreload
      · rfl

/-- **A request for a translation has three outcomes.**  No query is read from it, and nothing
is counted; its query is translated; or its query is rejected by validation. -/
theorem translateBody_cases (s : Server) (r : Request) (withPlan : Bool) :
    (∃ e, r.query = .error e ∧
        s.translateBody r withPlan = (.failure 400 .shapeError e.message, s)) ∨
      (∃ q t, r.query = .ok q ∧ translate s.registry q = .ok t ∧
        s.translateBody r withPlan =
          (.translation t withPlan, { s with metrics := s.metrics.record .ok r.elapsed })) ∨
      ∃ q e, r.query = .ok q ∧ q.validate s.registry = .error e ∧
        s.translateBody r withPlan =
          (.failure 400 e.kind e.message,
            { s with metrics := s.metrics.record .rejected r.elapsed }) := by
  cases hquery : r.query with
  | error e => exact .inl ⟨e, rfl, by simp only [translateBody, hquery]⟩
  | ok q =>
      cases hvalid : q.validate s.registry with
      | ok =>
          obtain ⟨plan, emitted, -, -, htranslated⟩ := translate_of_validate hvalid
          refine .inr (.inl ⟨q, _, rfl, htranslated, ?_⟩)
          simp only [translateBody, hquery, htranslated]
      | error e =>
          have hrejected := translate_of_validate_error hvalid
          refine .inr (.inr ⟨q, e, rfl, hvalid, ?_⟩)
          simp [translateBody, hquery, hrejected, statusOf, outcomeOf, TranslationError.kind,
            TranslationError.message, isUserError_kind e]

/-- **The response to a request for a translation**: what the pipeline makes of its query, or
why it has none. -/
def translationResponse (registry : Registry) (query : Except BodyError Query) (withPlan : Bool) :
    Response :=
  match query with
  | .error e => jsonResponse 400 (failureTree .shapeError e.message)
  | .ok q =>
    match translate registry q with
    | .ok t => jsonResponse 200 (translationTree t withPlan)
    | .error e => jsonResponse 400 (failureTree e.kind e.message)

theorem response_translateBody (s : Server) (r : Request) (withPlan : Bool) :
    (s.translateBody r withPlan).1.response s.startedAt =
      translationResponse s.registry r.query withPlan := by
  rcases s.translateBody_cases r withPlan with
    ⟨e, hquery, hbody⟩ | ⟨q, t, hquery, htranslated, hbody⟩ | ⟨q, e, hquery, hrejected, hbody⟩
  · rw [hbody, hquery]
    rfl
  · rw [hbody, hquery, translationResponse, htranslated]
    rfl
  · rw [hbody, hquery, translationResponse, translate_of_validate_error hrejected]
    rfl

/-! ## Runs -/

/-- The server after events. -/
def after (s : Server) (events : List Event) : Server := events.foldl (fun s e => (s.step e).2) s

/-- A request after other events is answered so in every run that gets to it, however the run
goes on. -/
def Answers (s : Server) (earlier : List Event) (r : Request) (response : Response) : Prop :=
  ∀ later, (s.run (earlier ++ .request r :: later))[earlier.length]? = some (some response)

/-- A server is a machine. -/
theorem run_eq (s : Server) (events : List Event) :
    s.run events = Machine.run Server.step s events := by
  induction events generalizing s with
  | nil => rfl
  | cons event rest ih => exact congrArg (List.cons _) (ih (s.step event).2)

theorem after_concat (s : Server) (events : List Event) (event : Event) :
    s.after (events ++ [event]) = ((s.after events).step event).2 :=
  Machine.after_concat Server.step s events event

theorem run_append (s : Server) (events later : List Event) :
    s.run (events ++ later) = s.run events ++ (s.after events).run later := by
  rw [run_eq, run_eq, run_eq]
  exact Machine.run_append Server.step s events later

theorem length_run (s : Server) (events : List Event) :
    (s.run events).length = events.length := by
  rw [run_eq, Machine.length_run]

/-- **A request is answered from the state that the earlier events lead to.** -/
theorem answers_iff {earlier : List Event} {response : Response} :
    s.Answers earlier r response ↔ ((s.after earlier).handleRequest r).1 = response := by
  have hanswer (later : List Event) : (s.run (earlier ++ .request r :: later))[earlier.length]?
      = some (some ((s.after earlier).handleRequest r).1) := by
    rw [run_eq]
    exact Machine.getElem?_run Server.step s earlier later (.request r)
  constructor
  · intro h
    exact Option.some.inj (Option.some.inj ((hanswer []).symm.trans (h [])))
  · rintro rfl later
    exact hanswer later

end Server

end SchemaQuery.Http
