import Mathlib.Data.List.Induction
import SchemaQuery.Proofs.Http.Runs
import SchemaQuery.Proofs.Service.Exposition

/-!
# What the metrics count

The metrics of a server are a function of what could be seen from outside: the events so far,
each with the response to it.  One step moves the counters exactly when a query is read from a
request for a translation, and by one; from this follow the counters after any events, and
what a request for the metrics is shown then.

No query is read from a request that does not announce JSON, from a body that is longer than a
body may be, and from one that is not JSON of the right shape.  Counters have 64 bits and are
shown in double precision, so what is shown for a count is its number as long as that is at
most `2 ^ 53`.

## Main definitions

* `Event.IsCounted` - the events that move a counter.
* `isTranslated`, `isRejected` - what counts as translated and as rejected, seen from outside.
* `Server.history`, `Server.translated`, `Server.rejected` - events with their responses, and
  how many of them count.
* `Metrics.Shows` - a text shows a count.
* `Server.Counted` - what the metrics of a server can be relied on for.

## Main statements

* `Server.query_outcomes` - what a request for a translation is answered and how it is counted.
* `Server.counts_step`, `Server.counts_after` - the counters follow the history.
* `Server.counted` - **the metrics count what was answered**, after any events.
-/

namespace SchemaQuery

/-- A text shows a count: as the only value of its sample, and not at all if it is zero. -/
def Metrics.Shows (text sample : String) (n : Nat) : Prop :=
  Metrics.valuesIn text sample = if n = 0 then [] else [Metrics.countText (UInt64.ofNat n)]

/-- The counter of something that occurred so many times. -/
def Metrics.counterAt (n : Nat) : Option UInt64 := if n = 0 then none else some (UInt64.ofNat n)

theorem Metrics.increment_counterAt (n : Nat) : increment (counterAt n) = counterAt (n + 1) := by
  by_cases hn : n = 0
  · subst hn
    rfl
  · rw [counterAt, if_neg hn, counterAt, if_neg (Nat.succ_ne_zero n), UInt64.ofNat_add]
    rfl

theorem Metrics.shows_of_count {m : Metrics} {outcome : Outcome} {n : Nat}
    (h : m.count outcome = counterAt n) : Shows m.text (outcomeSample outcome) n := by
  rw [Shows, valuesIn_outcome, h, counterAt]
  split_ifs <;> rfl

/-- Metrics are those of so many translations and so many rejections. -/
structure Metrics.Counts (m : Metrics) (a b : Nat) : Prop where
  ok : m.ok = counterAt a
  rejected : m.rejected = counterAt b
  error : m.error = none
  durations : m.durations.count = UInt64.ofNat (a + b)

/-- One more duration is observed. -/
theorem Metrics.Counts.count_observe {m : Metrics} {a b : Nat} (h : m.Counts a b)
    (seconds : Numeric.Binary64) :
    (m.durations.observe seconds).count = UInt64.ofNat (a + b + 1) := by
  rw [UInt64.ofNat_add, ← h.durations]
  rfl

theorem Metrics.Counts.record_ok {m : Metrics} {a b : Nat} (h : m.Counts a b)
    (seconds : Numeric.Binary64) :
    (m.record .ok seconds).Counts (a + 1) b where
  ok := (congrArg increment h.ok).trans (increment_counterAt a)
  rejected := h.rejected
  error := h.error
  durations := by
    rw [Metrics.durations_record, h.count_observe, Nat.add_right_comm]

theorem Metrics.Counts.record_rejected {m : Metrics} {a b : Nat} (h : m.Counts a b)
    (seconds : Numeric.Binary64) :
    (m.record .rejected seconds).Counts a (b + 1) where
  ok := h.ok
  rejected := (congrArg increment h.rejected).trans (increment_counterAt b)
  error := h.error
  durations := by
    rw [Metrics.durations_record, h.count_observe, Nat.add_assoc]

namespace Http

/-! ## What is seen from outside -/

/-- An event that moves a counter: a request for a translation from which a query is read. -/
def Event.IsCounted : Event → Prop
  | .request r => r.IsQuery ∧ r.query.isOk = true
  | _ => False

/-- Whether an event is a request for a translation that was answered with 200. -/
def isTranslated : Event × Option Response → Bool
  | (.request r, some response) => decide r.IsQuery && response.status == 200
  | _ => false

/-- Whether an event is a request for a translation from which a query is read and that was not
answered with 200. -/
def isRejected : Event × Option Response → Bool
  | (.request r, some response) => decide r.IsQuery && r.query.isOk && response.status != 200
  | _ => false

namespace Server

/-- Events with the responses to them. -/
def history (s : Server) (events : List Event) : List (Event × Option Response) :=
  events.zip (s.run events)

/-- How many of the events are requests for a translation that were answered with one. -/
def translated (s : Server) (events : List Event) : Nat := (s.history events).countP isTranslated

/-- How many of the events are requests with a query that was rejected. -/
def rejected (s : Server) (events : List Event) : Nat := (s.history events).countP isRejected

theorem history_concat (s : Server) (events : List Event) (event : Event) :
    s.history (events ++ [event])
      = s.history events ++ [(event, ((s.after events).step event).1)] := by
  rw [history, run_append, List.zip_append (s.length_run events).symm]
  rfl

theorem translated_concat (s : Server) (events : List Event) (event : Event) :
    s.translated (events ++ [event]) = s.translated events
      + if isTranslated (event, ((s.after events).step event).1) then 1 else 0 := by
  rw [translated, history_concat, List.countP_append, List.countP_singleton]
  rfl

theorem rejected_concat (s : Server) (events : List Event) (event : Event) :
    s.rejected (events ++ [event]) = s.rejected events
      + if isRejected (event, ((s.after events).step event).1) then 1 else 0 := by
  rw [rejected, history_concat, List.countP_append, List.countP_singleton]
  rfl

/-! ## One step -/

variable {s : Server} {r : Request}

/-- **What a request for a translation is answered and how it is counted.** -/
theorem query_outcomes (s : Server) (h : r.IsQuery) :
    (r.query.isOk = false ∧ (s.handleRequest r).1.status = 400 ∧ (s.handleRequest r).2 = s) ∨
      (r.query.isOk = true ∧ (s.handleRequest r).1.status = 200 ∧
        (s.handleRequest r).2.metrics = s.metrics.record .ok r.elapsed) ∨
      (r.query.isOk = true ∧ (s.handleRequest r).1.status = 400 ∧
        (s.handleRequest r).2.metrics = s.metrics.record .rejected r.elapsed) := by
  obtain ⟨withPlan, hstep⟩ := s.handleRequest_query h
  rcases s.translateBody_cases r withPlan with
    ⟨e, hquery, hbody⟩ | ⟨q, t, hquery, -, hbody⟩ | ⟨q, e, hquery, -, hbody⟩
  all_goals rw [hstep, hbody, hquery]
  · exact .inl ⟨rfl, rfl, rfl⟩
  · exact .inr (.inl ⟨rfl, rfl, rfl⟩)
  · exact .inr (.inr ⟨rfl, rfl, rfl⟩)

/-- A reload leaves the metrics, whether it succeeds or not. -/
theorem metrics_reload (s : Server) : s.reload.2.metrics = s.metrics := by
  unfold reload
  cases s.load <;> rfl

/-- **An event that is not counted leaves the metrics.** -/
theorem metrics_step_of_not_isCounted (s : Server) {event : Event} (h : ¬ event.IsCounted) :
    (s.step event).2.metrics = s.metrics := by
  cases event with
  | writeSchema | removeSchema => rfl
  | request r =>
      show (s.handleRequest r).2.metrics = s.metrics
      by_cases hquery : r.IsQuery
      · rcases s.query_outcomes hquery with ⟨-, -, hstep⟩ | ⟨hbody, -⟩ | ⟨hbody, -⟩
        · rw [hstep]
        · exact absurd ⟨hquery, hbody⟩ h
        · exact absurd ⟨hquery, hbody⟩ h
      · by_cases hreload : r.IsReload
        · rw [s.handleRequest_reload hreload]
          exact s.metrics_reload
        · rw [s.handleRequest_other hquery hreload]

/-- An event that is not counted was neither translated nor rejected. -/
theorem outcome_of_not_isCounted (s : Server) {event : Event} (h : ¬ event.IsCounted) :
    isTranslated (event, (s.step event).1) = false ∧
      isRejected (event, (s.step event).1) = false := by
  cases event with
  | writeSchema | removeSchema => exact ⟨rfl, rfl⟩
  | request r =>
      show isTranslated (.request r, some (s.handleRequest r).1) = false ∧
        isRejected (.request r, some (s.handleRequest r).1) = false
      by_cases hquery : r.IsQuery
      · rcases s.query_outcomes hquery with ⟨hnone, hstatus, -⟩ | ⟨hbody, -⟩ | ⟨hbody, -⟩
        · simp [isTranslated, isRejected, hnone, hstatus]
        · exact absurd ⟨hquery, hbody⟩ h
        · exact absurd ⟨hquery, hbody⟩ h
      · simp [isTranslated, isRejected, hquery]

/-- **One step moves the counters as its response says.** -/
theorem counts_step {a b : Nat} (h : s.metrics.Counts a b) (event : Event) :
    (s.step event).2.metrics.Counts
      (a + if isTranslated (event, (s.step event).1) then 1 else 0)
      (b + if isRejected (event, (s.step event).1) then 1 else 0) := by
  by_cases hcounted : event.IsCounted
  · cases event with
    | writeSchema | removeSchema => exact absurd hcounted id
    | request r =>
        obtain ⟨hquery, hbody⟩ := hcounted
        show (s.handleRequest r).2.metrics.Counts
          (a + if isTranslated (.request r, some (s.handleRequest r).1) then 1 else 0)
          (b + if isRejected (.request r, some (s.handleRequest r).1) then 1 else 0)
        rcases s.query_outcomes hquery with
          ⟨hnone, -⟩ | ⟨-, hstatus, hmetrics⟩ | ⟨-, hstatus, hmetrics⟩
        · exact absurd (hbody.symm.trans hnone) (by decide)
        · simpa [isTranslated, isRejected, hquery, hbody, hstatus, hmetrics]
            using h.record_ok r.elapsed
        · simpa [isTranslated, isRejected, hquery, hbody, hstatus, hmetrics]
            using h.record_rejected r.elapsed
  · obtain ⟨htranslated, hrejected⟩ := s.outcome_of_not_isCounted hcounted
    rw [s.metrics_step_of_not_isCounted hcounted, htranslated, hrejected]
    exact h

/-! ## Runs -/

variable (registry : Registry) (path startedAt : String)

/-- **The counters of a server follow its history.** -/
theorem counts_after (earlier : List Event) :
    ((start registry path startedAt).after earlier).metrics.Counts
      ((start registry path startedAt).translated earlier)
      ((start registry path startedAt).rejected earlier) := by
  induction earlier using List.reverseRecOn with
  | nil => exact ⟨rfl, rfl, rfl, rfl⟩
  | append_singleton earlier event ih =>
      rw [after_concat, translated_concat, rejected_concat]
      exact counts_step ih event

/-- What the metrics of a server can be relied on for, after some events: a request for the
metrics is shown how many requests for a translation were answered with one, how many had
their query rejected, and the sum of both as the number of durations and in the last bucket,
and is never shown an error; the text for a count is its number, up to the last one that
doubles hold without gaps; only a query that was read moves a counter; and a request for a
translation is answered with 200 or 400. -/
structure Counted (s : Server) (earlier : List Event) : Prop where
  shown : ∀ r : Request, r.method = "GET" → Route.ofTarget? r.target = some .metrics →
    ∃ response, s.Answers earlier r response ∧ response.status = 200 ∧
      Metrics.Shows response.body (Metrics.outcomeSample .ok) (s.translated earlier) ∧
      Metrics.Shows response.body (Metrics.outcomeSample .rejected) (s.rejected earlier) ∧
      Metrics.valuesIn response.body (Metrics.outcomeSample .error) = [] ∧
      Metrics.valuesIn response.body Metrics.countSample
        = [Metrics.countText (UInt64.ofNat (s.translated earlier + s.rejected earlier))] ∧
      Metrics.valuesIn response.body (Metrics.bucketSample "+Inf")
        = [Metrics.countText (UInt64.ofNat (s.translated earlier + s.rejected earlier))]
  exact : ∀ n ≤ 2 ^ 53,
    Metrics.countText (UInt64.ofNat n) = String.ofList (Numeric.decimalText n)
  unmoved : ∀ event : Event, ¬ event.IsCounted →
    (s.after (earlier ++ [event])).metrics = (s.after earlier).metrics
  status : ∀ r : Request, r.IsQuery →
    ∃ response, s.Answers earlier r response ∧ (response.status = 200 ∨ response.status = 400)

/-- **The metrics count what was answered**, after any requests and any changes of the schema
file. -/
theorem counted (earlier : List Event) : (start registry path startedAt).Counted earlier where
  shown := by
    intro r hmethod hroute
    have hcounts := counts_after registry path startedAt earlier
    have hanswer := handleRequest_of_answer (s := (start registry path startedAt).after earlier)
      hroute (by rw [hmethod]; decide) (by rw [hmethod]; decide)
    refine ⟨_, answers_iff.mpr (congrArg Prod.fst hanswer), rfl, ?_, ?_, ?_, ?_, ?_⟩
    · exact Metrics.shows_of_count hcounts.ok
    · exact Metrics.shows_of_count hcounts.rejected
    · exact Metrics.shows_of_count (n := 0) hcounts.error
    · rw [← hcounts.durations]
      exact Metrics.valuesIn_count _
    · rw [← hcounts.durations]
      exact Metrics.valuesIn_infinite _
  exact _ := Metrics.countText_ofNat
  unmoved := by
    intro event hevent
    rw [after_concat]
    exact metrics_step_of_not_isCounted _ hevent
  status := by
    intro r hquery
    refine ⟨_, answers_iff.mpr rfl, ?_⟩
    rcases ((start registry path startedAt).after earlier).query_outcomes hquery with
      ⟨-, hstatus, -⟩ | ⟨-, hstatus, -⟩ | ⟨-, hstatus, -⟩
    · exact .inr hstatus
    · exact .inl hstatus
    · exact .inr hstatus

end Server

end Http

end SchemaQuery
