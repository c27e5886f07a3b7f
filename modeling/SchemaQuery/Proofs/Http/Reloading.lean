import Mathlib.Data.List.Induction
import SchemaQuery.Proofs.Http.Runs
import SchemaQuery.Proofs.Schema.RoundTrip
import SchemaQuery.Proofs.Translation.Extension

/-!
# Reloads are atomic

A server answers from one document at a time: the text that the last successful reload found
in the schema file, or the document it was started with.  The document in force is a function
of the events alone (`documentInForce`), and the server that they lead to holds its registry.
A file that cannot be used is not used in part, and what happens to the file is not noticed
before a reload.

## Main definitions

* `Unusable` - why no registry can be had from the schema file.
* `fileAfter`, `reads`, `documentInForce` - the schema file after events, the texts that
  reloads read with success, and the document that answers come from.
* `Server.Traceless` - an event that no later response shows.
* `Server.ReloadsAtomically` - what the clients of a server can rely on.

## Main statements

* `unusable_iff` - the schema file is unusable exactly when loading it fails.
* `Server.handleRequest_congr` - a response comes from the registry in force.
* `Server.Follows.step`, `Server.follows_after` - a server holds what its events say.
* `Server.reloads_atomically` - **reloads are atomic**, after any events.
-/

namespace SchemaQuery.Http

/-! ## The schema file -/

/-- Why no registry can be had from the schema file: there is none, it is not JSON, it is JSON
but no schema document, or it is a schema document that breaks a rule. -/
inductive Unusable : Option String → Prop where
  | missing : Unusable none
  | notJson {text : String} (h : Json.Document.parse? text = none) : Unusable (some text)
  | wrongShape {text : String} {d : Json.Document} {e : Json.DecodeError}
    (hparse : Json.Document.parse? text = some d) (h : SchemaDocument.ofDocument d = .error e) :
    Unusable (some text)
  | ruleBroken {text : String} {schema : SchemaDocument}
    (hread : SchemaDocument.ofText text = .ok schema) (h : ¬ schema.WellFormed) :
    Unusable (some text)

/-- **The schema file is unusable exactly when no registry can be had from it.** -/
theorem unusable_iff {file : Option String} :
    Unusable file ↔ ∀ text ∈ file, ∀ registry, Registry.ofText text ≠ .ok registry := by
  have hnone {text : String} (h : ∀ schema, SchemaDocument.ofText text = .ok schema →
      ¬ schema.WellFormed) : ∀ registry, Registry.ofText text ≠ .ok registry := by
    intro registry hregistry
    obtain ⟨schema, hread, hwell⟩ := Registry.exists_ofText_iff.mp ⟨registry, hregistry⟩
    exact h schema hread hwell
  constructor
  · rintro (_ | h | ⟨hparse, h⟩ | ⟨hread, h⟩)
    · exact fun text htext => absurd htext (by simp)
    · rintro text ⟨⟩
      refine hnone fun schema hread => ?_
      obtain ⟨d, hparse, -⟩ := Json.Document.decodeText_eq_ok_iff.mp hread
      cases h.symm.trans hparse
    · rintro text ⟨⟩
      refine hnone fun schema hread => ?_
      obtain ⟨d, hparse', hdecoded⟩ := Json.Document.decodeText_eq_ok_iff.mp hread
      obtain rfl := Option.some.inj (hparse.symm.trans hparse')
      cases h.symm.trans hdecoded
    · rintro text ⟨⟩
      refine hnone fun schema hread' => ?_
      obtain rfl := Except.ok.inj (hread.symm.trans hread')
      exact h
  · intro h
    cases file with
    | none => exact .missing
    | some text =>
        cases hparse : Json.Document.parse? text with
        | none => exact .notJson hparse
        | some d =>
            cases hdecoded : SchemaDocument.ofDocument d with
            | error e => exact .wrongShape hparse hdecoded
            | ok schema =>
                have hread : SchemaDocument.ofText text = .ok schema :=
                  Json.Document.decodeText_eq_ok_iff.mpr ⟨d, hparse, hdecoded⟩
                refine .ruleBroken hread fun hwell => ?_
                obtain ⟨registry, hregistry⟩ :=
                  Registry.exists_ofText_iff.mpr ⟨schema, hread, hwell⟩
                exact h text rfl registry hregistry

/-! ## What events do to the file and the document -/

/-- The schema file after an event. -/
def Event.fileAfter (file : Option String) : Event → Option String
  | .request _ => file
  | .writeSchema text => some text
  | .removeSchema => none

/-- The text that an event reads from the schema file with success: that of a reload, if a
registry can be had from it. -/
def Event.read? (file : Option String) : Event → Option String
  | .request r =>
    if r.IsReload then file.filter fun text => (Registry.ofText text).isOk else none
  | _ => none

/-- The schema file after events, if there was none before. -/
def fileAfter (events : List Event) : Option String := events.foldl Event.fileAfter none

/-- The texts that events read with success, in order. -/
def reads (file : Option String) : List Event → List String
  | [] => []
  | event :: rest => (event.read? file).toList ++ reads (event.fileAfter file) rest

/-- The document in force after events: the last text that was read with success, or the
document at the start. -/
def documentInForce (first : String) (events : List Event) : String :=
  (reads none events).getLast?.getD first

theorem Event.read?_of_ok {r : Request} {file : Option String} {text : String} {registry : Registry}
    (hreload : r.IsReload) (htext : text ∈ file) (h : Registry.ofText text = .ok registry) :
    (Event.request r).read? file = some text := by
  rw [Event.read?, if_pos hreload, Option.mem_def.mp htext]
  simp [Option.filter, h, Except.isOk, Except.toBool]

theorem Event.read?_of_unusable {file : Option String} (h : Unusable file) (event : Event) :
    event.read? file = none := by
  cases event with
  | writeSchema | removeSchema => rfl
  | request r =>
      rw [Event.read?]
      split_ifs
      · refine Option.filter_eq_none_iff.mpr fun text htext => ?_
        cases hread : Registry.ofText text with
        | error e => simp [Except.isOk, Except.toBool]
        | ok registry => exact absurd hread (unusable_iff.mp h text htext registry)
      · rfl

theorem fileAfter_concat (events : List Event) (event : Event) :
    fileAfter (events ++ [event]) = event.fileAfter (fileAfter events) := by
  simp [fileAfter]

theorem reads_concat (file : Option String) (events : List Event) (event : Event) :
    reads file (events ++ [event])
      = reads file events ++ (event.read? (events.foldl Event.fileAfter file)).toList := by
  induction events generalizing file with
  | nil => simp [reads]
  | cons head rest ih => rw [List.cons_append, reads, reads, ih, List.append_assoc, List.foldl_cons]

theorem documentInForce_concat (first : String) (events : List Event) (event : Event) :
    documentInForce first (events ++ [event])
      = (event.read? (fileAfter events)).getD (documentInForce first events) := by
  rw [documentInForce, reads_concat]
  show _ = (event.read? (events.foldl Event.fileAfter none)).getD _
  cases event.read? (events.foldl Event.fileAfter none) with
  | none => rw [Option.toList_none, List.append_nil]; rfl
  | some text => simp

/-! ## What a response depends on -/

/-- A request for something else than a reload or the metrics. -/
def Request.AsksRegistry (r : Request) : Prop :=
  ∀ route ∈ Route.ofTarget? r.target, route ≠ .reload ∧ route ≠ .metrics

instance (r : Request) : Decidable r.AsksRegistry :=
  inferInstanceAs (Decidable (∀ route ∈ Route.ofTarget? r.target, _))

namespace Server

variable {s s' : Server} {r : Request}

/-- A translation comes from the registry in force. -/
theorem translateBody_congr (hregistry : s.registry = s'.registry) (r : Request)
    (withPlan : Bool) : (s.translateBody r withPlan).1 = (s'.translateBody r withPlan).1 := by
  unfold translateBody
  rw [hregistry]
  split
  · rfl
  · split <;> rfl

/-- **A response comes from the registry in force**, if the request asks for nothing else. -/
theorem handleRequest_congr (h : r.AsksRegistry) (hregistry : s.registry = s'.registry)
    (hstarted : s.startedAt = s'.startedAt) :
    (s.handleRequest r).1 = (s'.handleRequest r).1 := by
  have hreply : (s.reply r).1 = (s'.reply r).1 := by
    unfold reply
    cases hroute : Route.ofTarget? r.target with
    | none => rfl
    | some route =>
        obtain ⟨hreload, hmetrics⟩ := h route hroute
        dsimp only
        split_ifs
        · cases route with
          | health | models => simp only [answer, hregistry]
          | model segment => simp only [answer, modelReply, hregistry]
          | query | explain => exact translateBody_congr hregistry r _
          | reload => exact absurd rfl hreload
          | metrics => exact absurd rfl hmetrics
        · rfl
  have hresponse (s : Server) : (s.handleRequest r).1
      = if r.method = "HEAD" then { (s.reply r).1.response s.startedAt with body := "" }
        else (s.reply r).1.response s.startedAt := rfl
  rw [hresponse, hresponse, hreply, hstarted]

/-- A server with another schema file. -/
def withFile (s : Server) (file : Option String) : Server := { s with schemaFile := file }

@[simp] theorem registry_withFile (s : Server) (file : Option String) :
    (s.withFile file).registry = s.registry := rfl

theorem translateBody_withFile (s : Server) (r : Request) (withPlan : Bool) (file : Option String) :
    (s.withFile file).translateBody r withPlan
      = ((s.translateBody r withPlan).1, (s.translateBody r withPlan).2.withFile file) := by
  unfold translateBody
  rw [registry_withFile]
  split
  · rfl
  · split <;> rfl

/-- **The schema file is not looked at before a reload.** -/
theorem handleRequest_withFile (s : Server) (hreload : ¬ r.IsReload) (file : Option String) :
    (s.withFile file).handleRequest r
      = ((s.handleRequest r).1, (s.handleRequest r).2.withFile file) := by
  have hreply : (s.withFile file).reply r = ((s.reply r).1, (s.reply r).2.withFile file) := by
    unfold reply
    cases hroute : Route.ofTarget? r.target with
    | none => rfl
    | some route =>
        dsimp only
        split_ifs with hadmits
        · cases route with
          | health | models | model | metrics => rfl
          | query | explain => exact s.translateBody_withFile r _ file
          | reload => exact absurd ⟨method_of_admits hadmits rfl, hroute⟩ hreload
        · rfl
  rw [handleRequest, hreply]
  rfl

theorem step_withFile (s : Server) {event : Event} (h : ∀ r, event = .request r → ¬ r.IsReload)
    (file : Option String) :
    (s.withFile file).step event
      = ((s.step event).1, (s.step event).2.withFile (event.fileAfter file)) := by
  cases event with
  | writeSchema | removeSchema => rfl
  | request r =>
      rw [step, s.handleRequest_withFile (h r rfl)]
      rfl

/-- Events without a reload are answered alike whatever is in the schema file. -/
theorem run_withFile {events : List Event} (h : ∀ r, .request r ∈ events → ¬ r.IsReload)
    (s : Server) (file : Option String) : (s.withFile file).run events = s.run events := by
  induction events generalizing s file with
  | nil => rfl
  | cons event rest ih =>
      have hevent : ∀ r, event = .request r → ¬ r.IsReload := fun r heq =>
        h r (heq ▸ List.mem_cons_self)
      have hrest : ∀ r, .request r ∈ rest → ¬ r.IsReload := fun r hr =>
        h r (List.mem_cons_of_mem _ hr)
      show ((s.withFile file).step event).1 :: ((s.withFile file).step event).2.run rest
        = (s.step event).1 :: (s.step event).2.run rest
      rw [s.step_withFile hevent, ih hrest]

/-! ## Reloads -/

/-- A request for anything but a reload changes the metrics at most. -/
theorem exists_metrics (s : Server) (h : ¬ r.IsReload) :
    ∃ metrics, (s.handleRequest r).2 = { s with metrics } := by
  by_cases hquery : r.IsQuery
  · obtain ⟨withPlan, hstep⟩ := s.handleRequest_query hquery
    rcases s.translateBody_cases r withPlan with
      ⟨e, -, hbody⟩ | ⟨q, t, -, -, hbody⟩ | ⟨q, e, -, -, hbody⟩
    all_goals
      rw [hstep, hbody]
      exact ⟨_, rfl⟩
  · rw [s.handleRequest_other hquery h]
    exact ⟨_, rfl⟩

/-- A reload of a file that a registry can be had from publishes the registry. -/
theorem reload_of_ok {text : String} {registry : Registry} (hfile : s.schemaFile = some text)
    (h : Registry.ofText text = .ok registry) :
    s.reload = (.reloaded registry.size, s.publish registry) := by
  have hload : s.load = .ok registry := by
    rw [load, hfile]
    exact h
  rw [reload, hload]

/-- **A reload of an unusable file changes nothing.** -/
theorem reload_of_unusable (h : Unusable s.schemaFile) :
    ∃ message, s.reload = (.failure 500 .configInvalid message, s) := by
  have hload : ∃ e, s.load = .error e := by
    rw [load]
    cases hfile : s.schemaFile with
    | none => exact ⟨_, rfl⟩
    | some text =>
        cases hread : Registry.ofText text with
        | error e => exact ⟨e, hread⟩
        | ok registry => exact absurd hread (unusable_iff.mp h text hfile registry)
  obtain ⟨e, hload⟩ := hload
  exact ⟨e.message, by rw [reload, hload]; rfl⟩

/-! ## What a server holds -/

/-- A server is as the events that led to it say: the schema file is the last one that was
written, and the registry is that of the document in force. -/
structure Follows (s : Server) (first startedAt : String) (earlier : List Event) : Prop where
  schemaFile : s.schemaFile = fileAfter earlier
  registry : Registry.ofText (documentInForce first earlier) = .ok s.registry
  startedAt : s.startedAt = startedAt

variable {first startedAt : String} {earlier : List Event}

/-- An event that reads nothing leaves the document in force, and the registry with it. -/
theorem Follows.of_read?_none (h : s.Follows first startedAt earlier) {event : Event}
    (hread : event.read? (fileAfter earlier) = none)
    (hfile : s'.schemaFile = event.fileAfter s.schemaFile) (hregistry : s'.registry = s.registry)
    (hstarted : s'.startedAt = s.startedAt) :
    s'.Follows first startedAt (earlier ++ [event]) where
  schemaFile := by rw [fileAfter_concat, hfile, h.schemaFile]
  registry := by
    rw [documentInForce_concat, hread, hregistry]
    exact h.registry
  startedAt := hstarted.trans h.startedAt

/-- **One step keeps the document in force and the registry together.** -/
theorem Follows.step (h : s.Follows first startedAt earlier) (event : Event) :
    (s.step event).2.Follows first startedAt (earlier ++ [event]) := by
  cases event with
  | writeSchema | removeSchema => exact h.of_read?_none rfl rfl rfl rfl
  | request r =>
      show (s.handleRequest r).2.Follows first startedAt (earlier ++ [.request r])
      by_cases hreload : r.IsReload
      · rw [s.handleRequest_reload hreload]
        by_cases husable :
            ∃ text ∈ fileAfter earlier, ∃ registry, Registry.ofText text = .ok registry
        · obtain ⟨text, htext, registry, hregistry⟩ := husable
          rw [reload_of_ok (h.schemaFile.trans htext) hregistry]
          refine ⟨?_, ?_, h.startedAt⟩
          · rw [fileAfter_concat]
            exact h.schemaFile
          · rw [documentInForce_concat, Event.read?_of_ok hreload htext hregistry]
            exact hregistry
        · have hunusable : Unusable (fileAfter earlier) :=
            unusable_iff.mpr fun text htext registry hregistry =>
              husable ⟨text, htext, registry, hregistry⟩
          obtain ⟨message, hrefused⟩ := reload_of_unusable (h.schemaFile ▸ hunusable)
          rw [hrefused]
          exact h.of_read?_none (Event.read?_of_unusable hunusable _) rfl rfl rfl
      · obtain ⟨metrics, hnext⟩ := s.exists_metrics hreload
        rw [hnext]
        exact h.of_read?_none (if_neg hreload) rfl rfl rfl

/-- **A server follows its events**, if it was started with the registry of a document. -/
theorem follows_after {registry : Registry} (built : Registry.ofText first = .ok registry)
    (path startedAt : String) (earlier : List Event) :
    ((start registry path startedAt).after earlier).Follows first startedAt earlier := by
  induction earlier using List.reverseRecOn with
  | nil => exact ⟨rfl, built, rfl⟩
  | append_singleton earlier event ih =>
      rw [after_concat]
      exact ih.step event

/-! ## What clients can rely on -/

/-- An event that no later response shows: but for its own response, a run with it and a run
without it are answered alike. -/
def Traceless (s : Server) (earlier : List Event) (event : Event) (later : List Event) : Prop :=
  (s.run (earlier ++ event :: later)).eraseIdx earlier.length = s.run (earlier ++ later)

theorem traceless_of_run_eq {event : Event} {later : List Event}
    (h : ((s.after earlier).step event).2.run later = (s.after earlier).run later) :
    s.Traceless earlier event later := by
  rw [Traceless, run_append, run_append, ← s.length_run earlier,
    List.eraseIdx_append_of_length_le (Nat.le_refl _), Nat.sub_self, ← h]
  rfl

/-- What the clients of a server can rely on after some events, if it was started with a
document: every response but those to reloads and requests for the metrics is the one of a
server that was just started with the registry of the document in force; a reload of a usable
file puts the text of the file in force; a reload of an unusable file is answered with an
error and shows in no later response; and a change of the file shows in no response before the
next reload. -/
structure ReloadsAtomically (s : Server) (first : String) (earlier : List Event) : Prop where
  answered : ∀ r : Request, r.AsksRegistry → ∃ registry,
    Registry.ofText (documentInForce first earlier) = .ok registry ∧
      s.Answers earlier r ((start registry s.schemaPath s.startedAt).handleRequest r).1
  reloaded : ∀ r : Request, r.IsReload → ∀ text ∈ fileAfter earlier, ∀ registry,
    Registry.ofText text = .ok registry →
      s.Answers earlier r ((Reply.reloaded registry.size).response s.startedAt) ∧
        documentInForce first (earlier ++ [.request r]) = text
  refused : ∀ r : Request, r.IsReload → Unusable (fileAfter earlier) →
    (∃ message,
      s.Answers earlier r ((Reply.failure 500 .configInvalid message).response s.startedAt)) ∧
      documentInForce first (earlier ++ [.request r]) = documentInForce first earlier ∧
      ∀ later, s.Traceless earlier (.request r) later
  unread : ∀ event : Event, (∀ r, event ≠ .request r) →
    ∀ later, (∀ r, .request r ∈ later → ¬ r.IsReload) → s.Traceless earlier event later

/-- **Reloads are atomic**, after any requests and any changes of the schema file. -/
theorem reloads_atomically {registry : Registry} (built : Registry.ofText first = .ok registry)
    (path startedAt : String) (earlier : List Event) :
    (start registry path startedAt).ReloadsAtomically first earlier := by
  have hfollows := follows_after built path startedAt earlier
  refine ⟨fun r hasks => ?_, fun r hreload text htext published hpublished => ?_,
    fun r hreload hunusable => ?_, fun event hevent later hlater => ?_⟩
  · refine ⟨_, hfollows.registry,
      answers_iff.mpr (handleRequest_congr hasks rfl hfollows.startedAt)⟩
  · have hresult := reload_of_ok (hfollows.schemaFile.trans htext) hpublished
    refine ⟨answers_iff.mpr ?_, ?_⟩
    · rw [handleRequest_reload _ hreload, hresult, hfollows.startedAt]
      rfl
    · rw [documentInForce_concat, Event.read?_of_ok hreload htext hpublished]
      rfl
  · obtain ⟨message, hrefused⟩ := reload_of_unusable (hfollows.schemaFile ▸ hunusable)
    refine ⟨⟨message, answers_iff.mpr ?_⟩, ?_, fun later => traceless_of_run_eq ?_⟩
    · rw [handleRequest_reload _ hreload, hrefused, hfollows.startedAt]
      rfl
    · rw [documentInForce_concat, Event.read?_of_unusable hunusable]
      rfl
    · show (((start registry path startedAt).after earlier).handleRequest r).2.run later = _
      rw [handleRequest_reload _ hreload, hrefused]
  · refine traceless_of_run_eq ?_
    cases event with
    | request r => exact absurd rfl (hevent r)
    | writeSchema text => exact run_withFile hlater _ (some text)
    | removeSchema => exact run_withFile hlater _ none

end Server

end SchemaQuery.Http

namespace SchemaQuery

namespace Orders

/-- A request for a reload. -/
def reload : Http.Request := ⟨"POST", "/admin/reload", none, [], .zero false⟩

/-- A request for the number of models. -/
def health : Http.Request := ⟨"GET", "/health?now", none, [], .zero false⟩

end Orders

/-- The grown schema is not noticed when it is written but when it is reloaded, and then it
does not matter that its file is gone. -/
theorem Http.Server.reloads_atomically_orders : ∃ first second,
    Registry.ofText first = .ok Orders.registry ∧
      Registry.ofText second = .ok Orders.grownRegistry ∧
      (start Orders.registry "models.json" "noon").Answers [.writeSchema second] Orders.health
        ((Reply.health 1).response "noon") ∧
      (start Orders.registry "models.json" "noon").Answers
        [.writeSchema second, .request Orders.reload, .removeSchema] Orders.health
        ((Reply.health 2).response "noon") := by
  obtain ⟨first, hfirst⟩ := Registry.exists_ofText Orders.registry
  obtain ⟨second, hsecond⟩ := Registry.exists_ofText Orders.grownRegistry
  have hasks : Orders.health.AsksRegistry := by decide
  refine ⟨first, second, hfirst, hsecond, ?_, ?_⟩
  · obtain ⟨registry, hregistry, hanswer⟩ :=
      (reloads_atomically hfirst "models.json" "noon" [.writeSchema second]).answered _ hasks
    obtain rfl : Orders.registry = registry := Except.ok.inj (hfirst.symm.trans hregistry)
    exact hanswer
  · have hinForce : documentInForce first
        [.writeSchema second, .request Orders.reload, .removeSchema] = second := by
      have hread : (Event.request Orders.reload).read? (some second) = some second :=
        Event.read?_of_ok (by decide) rfl hsecond
      show (((Event.request Orders.reload).read? (some second)).toList ++ []).getLast?.getD first
        = second
      rw [hread]
      rfl
    obtain ⟨registry, hregistry, hanswer⟩ := (reloads_atomically hfirst "models.json" "noon"
      [.writeSchema second, .request Orders.reload, .removeSchema]).answered _ hasks
    rw [hinForce] at hregistry
    obtain rfl : Orders.grownRegistry = registry := Except.ok.inj (hsecond.symm.trans hregistry)
    exact hanswer

end SchemaQuery
