import Mathlib.Data.List.Induction
import SchemaQuery.Proofs.Machine
import SchemaQuery.Proofs.Schema.RoundTrip
import SchemaQuery.Proofs.Translation.Totality
import SchemaQuery.Service.Handle

/-!
# Snapshots do not change

The steps of all clients of a handle stand in one list, in the order in which they take
effect, so that a list of steps is an interleaving of any number of clients.  What a client is
answered can be said of the steps before it alone: which registries they published, and when
the snapshot was taken that it asks about.  Nothing that happens after the taking matters.

## Main definitions

* `Session.published`, `Session.inForce`, `Session.takings` - what steps publish, which
  publication is in force after them, and how many snapshots they take.
* `Session.RefersTo` - which publication a question is about.
* `Session.Answered` - how a step is answered in every run that gets to it.
* `Session.Isolated` - what the clients of a handle can rely on.

## Main statements

* `Session.Follows.step`, `Session.follows_after` - a session holds what its steps say.
* `Session.snapshots_isolated` - **snapshots are isolated from publications**, after any steps.
-/

namespace SchemaQuery.Session

/-! ## What steps do -/

/-- The registry that a step publishes, if it publishes one. -/
def Step.published? : Step → Option Registry
  | .replace schema => (Registry.ofText schema).toOption
  | _ => none

/-- Whether a step takes a snapshot. -/
def Step.takes : Step → Bool
  | .snapshot => true
  | _ => false

/-- The registries that steps publish, in order. -/
def published (steps : List Step) : List Registry := steps.filterMap Step.published?

/-- The publication in force after steps: the last of them, or the first registry of the
handle. -/
def inForce (first : Registry) (steps : List Step) : Snapshot :=
  ⟨(published steps).getLast?.getD first, (published steps).length⟩

/-- How many snapshots steps take, which is the index of the next one. -/
def takings (steps : List Step) : Nat := steps.countP Step.takes

/-- The session after steps. -/
def after (s : Session) (steps : List Step) : Session :=
  steps.foldl (fun s step => (s.step step).2) s

/-- The publication that a question is about after steps: that of the snapshot which it names,
as it was when the snapshot was taken, and otherwise the one in force. -/
inductive RefersTo (first : Registry) (earlier : List Step) : Option Nat → Snapshot → Prop where
  | current : RefersTo first earlier none (inForce first earlier)
  | untaken {index : Nat} (h : takings earlier ≤ index) :
    RefersTo first earlier (some index) (inForce first earlier)
  | taken {before between : List Step} (h : earlier = before ++ .snapshot :: between) :
    RefersTo first earlier (some (takings before)) (inForce first before)

/-- A step after others is answered so in every run that gets to it, however the run goes
on. -/
def Answered (first : Registry) (earlier : List Step) (step : Step) (answer : Answer) : Prop :=
  ∀ later, ((start first).run (earlier ++ step :: later))[earlier.length]? = some answer

variable {first : Registry} {earlier : List Step}

theorem inForce_concat_of_none {step : Step} (h : step.published? = none) :
    inForce first (earlier ++ [step]) = inForce first earlier := by
  simp [inForce, published, h]

theorem inForce_concat_of_some {step : Step} {registry : Registry}
    (h : step.published? = some registry) :
    inForce first (earlier ++ [step]) = ⟨registry, (inForce first earlier).number + 1⟩ := by
  simp [inForce, published, h]

theorem takings_concat (earlier : List Step) (step : Step) :
    takings (earlier ++ [step]) = takings earlier + if step.takes then 1 else 0 := by
  simp [takings, List.countP_cons]

/-- A snapshot among steps is the last of them or was taken before the last. -/
theorem taking_concat {step : Step} {before between : List Step}
    (h : earlier ++ [step] = before ++ .snapshot :: between) :
    (step = .snapshot ∧ before = earlier) ∨
      ∃ between', earlier = before ++ .snapshot :: between' := by
  rcases List.eq_nil_or_concat between with rfl | ⟨between', last, rfl⟩
  · obtain ⟨hbefore, hstep⟩ := List.append_inj' h rfl
    exact .inl ⟨List.head_eq_of_cons_eq hstep, hbefore.symm⟩
  · refine .inr ⟨between', ?_⟩
    have hassoc : before ++ .snapshot :: (between' ++ [last])
        = (before ++ .snapshot :: between') ++ [last] := by simp
    rw [List.concat_eq_append, hassoc] at h
    exact (List.append_inj' h rfl).1

/-- Every index below the number of snapshots is that of a snapshot. -/
theorem exists_taking {index : Nat} (h : index < takings earlier) :
    ∃ before between, earlier = before ++ .snapshot :: between ∧ takings before = index := by
  induction earlier using List.reverseRecOn with
  | nil => exact absurd h (Nat.not_lt_zero _)
  | append_singleton earlier step ih =>
      by_cases hlt : index < takings earlier
      · obtain ⟨before, between, rfl, hindex⟩ := ih hlt
        exact ⟨before, between ++ [step], by simp, hindex⟩
      · rw [takings_concat] at h
        cases step with
        | snapshot =>
            -- the index is that of the last step
            have hindex : index < takings earlier + 1 := h
            exact ⟨earlier, [], rfl, by omega⟩
        | replace | same | ask => exact absurd h hlt

theorem after_concat (s : Session) (steps : List Step) (step : Step) :
    s.after (steps ++ [step]) = ((s.after steps).step step).2 :=
  Machine.after_concat Session.step s steps step

/-! ## Publishing -/

section Publishing

variable {schema : String} {registry : Registry} {e : SchemaError}

theorem published?_of_ok (h : Registry.ofText schema = .ok registry) :
    (Step.replace schema).published? = some registry := by
  rw [Step.published?, h]
  rfl

theorem published?_of_error (h : Registry.ofText schema = .error e) :
    (Step.replace schema).published? = none := by
  rw [Step.published?, h]
  rfl

/-- A valid schema is published, and what was in force is handed back. -/
theorem step_replace_of_ok {s : Session} (h : Registry.ofText schema = .ok registry) :
    s.step (.replace schema) =
      (.replaced s.handle.current ⟨registry, s.handle.current.number + 1⟩,
        { s with handle := s.handle.replace registry }) := by
  rw [Session.step, Handle.replaceText, h]
  rfl

/-- An invalid schema is refused and changes nothing. -/
theorem step_replace_of_error {s : Session} (h : Registry.ofText schema = .error e) :
    s.step (.replace schema) = (.refused e, s) := by
  rw [Session.step, Handle.replaceText, h]
  rfl

end Publishing

/-! ## Runs -/

/-- A session is a machine. -/
theorem run_eq (s : Session) (steps : List Step) :
    s.run steps = Machine.run Session.step s steps := by
  induction steps generalizing s with
  | nil => rfl
  | cons step rest ih => exact congrArg (List.cons _) (ih (s.step step).2)

/-- A step is answered from the session that the earlier steps lead to. -/
theorem answered_iff {step : Step} {answer : Answer} :
    Answered first earlier step answer ↔ (((start first).after earlier).step step).1 = answer := by
  have hanswer (later : List Step) :
      ((start first).run (earlier ++ step :: later))[earlier.length]?
        = some (((start first).after earlier).step step).1 := by
    rw [run_eq]
    exact Machine.getElem?_run Session.step (start first) earlier later step
  constructor
  · intro h
    exact Option.some.inj ((hanswer []).symm.trans (h []))
  · rintro rfl later
    exact hanswer later

/-! ## What a session holds -/

/-- A session is as the steps that led to it say: the right publication is in force, and every
snapshot is the publication that was in force when it was taken. -/
structure Follows (s : Session) (first : Registry) (earlier : List Step) : Prop where
  current : s.handle.current = inForce first earlier
  count : s.taken.length = takings earlier
  held : ∀ before between, earlier = before ++ .snapshot :: between →
    s.taken[takings before]? = some (inForce first before)

/-- A step that takes no snapshot leaves those that were taken. -/
theorem Follows.of_not_takes {s s' : Session} {step : Step} (h : s.Follows first earlier)
    (htakes : step.takes = false) (htaken : s'.taken = s.taken)
    (hcurrent : s'.handle.current = inForce first (earlier ++ [step])) :
    s'.Follows first (earlier ++ [step]) where
  current := hcurrent
  count := by
    rw [takings_concat, htaken, htakes, h.count]
    rfl
  held := by
    intro before between hsplit
    rcases taking_concat hsplit with ⟨rfl, -⟩ | ⟨between', hearlier⟩
    · cases htakes
    · rw [htaken]
      exact h.held before between' hearlier

/-- **One step keeps a session as its steps say.** -/
theorem Follows.step {s : Session} (h : s.Follows first earlier) (step : Step) :
    (s.step step).2.Follows first (earlier ++ [step]) := by
  cases step with
  | snapshot =>
      refine ⟨?_, ?_, ?_⟩
      · rw [inForce_concat_of_none rfl]
        exact h.current
      · rw [takings_concat, ← h.count]
        simp [Session.step, Step.takes]
      · intro before between hsplit
        show (s.taken ++ [s.handle.current])[takings before]? = _
        -- the new snapshot stands at the end, and the others stay where they are
        rcases taking_concat hsplit with ⟨-, rfl⟩ | ⟨between', hearlier⟩
        · rw [← h.count, List.getElem?_concat_length, h.current]
        · have hheld := h.held before between' hearlier
          have hlt := (List.getElem?_eq_some_iff.mp hheld).1
          rw [List.getElem?_append_left hlt, hheld]
  | replace schema =>
      cases hread : Registry.ofText schema with
      | ok registry =>
          rw [step_replace_of_ok hread]
          refine h.of_not_takes rfl rfl ?_
          rw [inForce_concat_of_some (published?_of_ok hread), ← h.current]
          rfl
      | error e =>
          rw [step_replace_of_error hread]
          refine h.of_not_takes rfl rfl ?_
          rw [inForce_concat_of_none (published?_of_error hread)]
          exact h.current
  | same | ask =>
      refine h.of_not_takes rfl rfl ?_
      rw [inForce_concat_of_none rfl]
      exact h.current

/-- **A session is as its steps say**, after any steps. -/
theorem follows_after (first : Registry) (earlier : List Step) :
    ((start first).after earlier).Follows first earlier := by
  induction earlier using List.reverseRecOn with
  | nil => exact ⟨rfl, rfl, fun before between h => by simp at h⟩
  | append_singleton earlier step ih =>
      rw [after_concat]
      exact ih.step step

/-- A question is about the publication that the session finds for it. -/
theorem refersTo_iff {index : Option Nat} {snapshot : Snapshot} :
    RefersTo first earlier index snapshot ↔
      ((start first).after earlier).snapshotOr index = snapshot := by
  obtain ⟨hcurrent, hcount, hheld⟩ := follows_after first earlier
  constructor
  · intro h
    cases h with
    | current => exact hcurrent
    | @untaken index h =>
        have hnone : ((start first).after earlier).taken[index]? = none :=
          List.getElem?_eq_none (hcount ▸ h)
        rw [snapshotOr, Option.bind_some, hnone]
        exact hcurrent
    | taken h =>
        rw [snapshotOr, Option.bind_some, hheld _ _ h]
        rfl
  · rintro rfl
    cases index with
    | none =>
        rw [snapshotOr, Option.bind_none, Option.getD_none, hcurrent]
        exact .current
    | some index =>
        rw [snapshotOr, Option.bind_some]
        by_cases hlt : index < takings earlier
        · obtain ⟨before, between, hsplit, rfl⟩ := exists_taking hlt
          rw [hheld before between hsplit]
          exact .taken hsplit
        · have huntaken : takings earlier ≤ index := Nat.le_of_not_lt hlt
          rw [List.getElem?_eq_none (hcount ▸ huntaken), Option.getD_none, hcurrent]
          exact .untaken huntaken

/-! ## Isolation -/

/-- What the clients of a handle can rely on after any steps, whoever made them. -/
structure Isolated (first : Registry) (earlier : List Step) : Prop where
  /-- A snapshot is the publication in force. -/
  taking : Answered first earlier .snapshot (.taken (takings earlier) (inForce first earlier))
  /-- Every question is about one publication. -/
  refers : ∀ index, ∃! snapshot, RefersTo first earlier index snapshot
  /-- A snapshot that was taken stays what it is, whatever steps follow. -/
  stable : ∀ index snapshot later, index < takings earlier →
    RefersTo first earlier (some index) snapshot →
      RefersTo first (earlier ++ later) (some index) snapshot
  /-- A question is answered by the registry that it is about. -/
  asked : ∀ index snapshot question, RefersTo first earlier index snapshot →
    Answered first earlier (.ask question index) (.reply (question.reply snapshot.registry))
  /-- A query is validated, planned and emitted with that one registry, and only validation
  may find a fault in it. -/
  translated : ∀ index snapshot text query, RefersTo first earlier index snapshot →
    Query.ofText text = .ok query →
      (∃ offence, query.validate snapshot.registry = .error offence ∧
        Answered first earlier (.ask (.translation text) index)
          (.reply (.translation (.error (.validation offence))))) ∨
      ∃ plan emitted, query.validate snapshot.registry = .ok () ∧
        Plan.ofQuery snapshot.registry query = .ok plan ∧ Sql.emit plan = .ok emitted ∧
        Answered first earlier (.ask (.translation text) index)
          (.reply (.translation (.ok ⟨plan, emitted⟩)))
  /-- A snapshot is the current publication as long as nothing has been published since. -/
  same : ∀ before between, earlier = before ++ .snapshot :: between → ∃ result,
    Answered first earlier (.same (takings before)) (.same (some result)) ∧
      (result = true ↔ published between = [])
  same_untaken : ∀ index, takings earlier ≤ index →
    Answered first earlier (.same index) (.same none)
  /-- Every registry can be published. -/
  publishable : ∀ registry, ∃ schema, Registry.ofText schema = .ok registry
  /-- Publishing hands back what was in force, and puts another publication in its place. -/
  replaced : ∀ schema registry, Registry.ofText schema = .ok registry →
    inForce first (earlier ++ [.replace schema]) = ⟨registry, (inForce first earlier).number + 1⟩ ∧
      Answered first earlier (.replace schema)
        (.replaced (inForce first earlier) (inForce first (earlier ++ [.replace schema])))
  /-- An invalid document is refused and leaves everything as it was. -/
  refused : ∀ schema e, Registry.ofText schema = .error e →
    Answered first earlier (.replace schema) (.refused e) ∧
      (start first).after (earlier ++ [.replace schema]) = (start first).after earlier

/-- A query in a text is translated, or validation finds a fault in it. -/
theorem reply_translation (registry : Registry) {text : String} {query : Query}
    (h : Query.ofText text = .ok query) :
    (∃ offence, query.validate registry = .error offence ∧
      (Question.translation text).reply registry = .translation (.error (.validation offence))) ∨
    ∃ plan emitted, query.validate registry = .ok () ∧ Plan.ofQuery registry query = .ok plan ∧
      Sql.emit plan = .ok emitted ∧
      (Question.translation text).reply registry = .translation (.ok ⟨plan, emitted⟩) := by
  have hreply : (Question.translation text).reply registry
      = .translation (translate registry query) := by
    rw [Question.reply, h]
  cases hvalid : query.validate registry with
  | error offence =>
      exact .inl ⟨offence, rfl, by rw [hreply, translate_of_validate_error hvalid]⟩
  | ok =>
      obtain ⟨plan, emitted, hplan, hemitted, htranslated⟩ := translate_of_validate hvalid
      exact .inr ⟨plan, emitted, rfl, hplan, hemitted, by rw [hreply, htranslated]⟩

theorem answered_ask {index : Option Nat} {snapshot : Snapshot} (question : Question)
    (h : RefersTo first earlier index snapshot) :
    Answered first earlier (.ask question index) (.reply (question.reply snapshot.registry)) := by
  rw [answered_iff, ← refersTo_iff.mp h]
  rfl

/-- Whether a snapshot is the current publication is told by its number, which grows with every
publication. -/
theorem answered_same {before between : List Step} (h : earlier = before ++ .snapshot :: between) :
    Answered first earlier (.same (takings before))
      (.same (some ((inForce first before).isSame (inForce first earlier)))) := by
  have hfollows := follows_after first earlier
  rw [answered_iff]
  show Answer.same (((start first).after earlier).taken[takings before]?.map _) = _
  rw [hfollows.held before between h, hfollows.current]
  rfl

theorem isSame_inForce_iff {before between : List Step}
    (h : earlier = before ++ .snapshot :: between) :
    (inForce first before).isSame (inForce first earlier) = true ↔ published between = [] := by
  have hlength : (published earlier).length
      = (published before).length + (published between).length := by
    rw [h, published, List.filterMap_append, List.length_append]
    rfl
  have hnumbers : (inForce first before).isSame (inForce first earlier) = true ↔
      (published before).length = (published earlier).length := decide_eq_true_iff
  rw [hnumbers, ← List.length_eq_zero_iff]
  omega

/-- **Snapshots are isolated from publications.**  After any steps of any clients, what is
asked of a snapshot is answered by the registry that was in force when the snapshot was taken,
and by no other; publishing hands back what it replaces, and an invalid document does nothing;
a snapshot is current exactly until the next publication, be it of an equal registry. -/
theorem snapshots_isolated (first : Registry) (earlier : List Step) : Isolated first earlier where
  taking := by
    have hfollows := follows_after first earlier
    rw [answered_iff, ← hfollows.count, ← hfollows.current]
    rfl
  refers := by
    intro index
    simp only [refersTo_iff]
    exact existsUnique_eq'
  stable := by
    intro index snapshot later hlt h
    cases h with
    | untaken huntaken => exact absurd hlt (Nat.not_lt.mpr huntaken)
    | @taken before between hsplit =>
        have hlater : earlier ++ later = before ++ .snapshot :: (between ++ later) := by
          rw [hsplit, List.append_assoc, List.cons_append]
        exact .taken hlater
  asked := fun _ _ question => answered_ask question
  translated := by
    intro index snapshot text query hrefers hquery
    have hanswer := answered_ask (.translation text) hrefers
    refine (reply_translation snapshot.registry hquery).imp ?_ ?_
    · rintro ⟨offence, hinvalid, hreply⟩
      exact ⟨offence, hinvalid, hreply ▸ hanswer⟩
    · rintro ⟨plan, emitted, hvalid, hplan, hemitted, hreply⟩
      exact ⟨plan, emitted, hvalid, hplan, hemitted, hreply ▸ hanswer⟩
  same := fun _ _ h => ⟨_, answered_same h, isSame_inForce_iff h⟩
  same_untaken := by
    intro index h
    have hnone : ((start first).after earlier).taken[index]? = none :=
      List.getElem?_eq_none ((follows_after first earlier).count ▸ h)
    rw [answered_iff]
    show Answer.same (((start first).after earlier).taken[index]?.map _) = _
    rw [hnone]
    rfl
  publishable := Registry.exists_ofText
  replaced := by
    intro schema registry h
    have hinForce : inForce first (earlier ++ [.replace schema])
        = ⟨registry, (inForce first earlier).number + 1⟩ :=
      inForce_concat_of_some (published?_of_ok h)
    refine ⟨hinForce, ?_⟩
    rw [answered_iff, step_replace_of_ok h, hinForce, (follows_after first earlier).current]
  refused := by
    intro schema e h
    refine ⟨?_, ?_⟩
    · rw [answered_iff, step_replace_of_error h]
    · rw [after_concat, step_replace_of_error h]

/-- Where the registry in force is published again, a snapshot of it is not current any more,
though the current publication is of the same registry. -/
theorem snapshots_isolated_republished :
    ∃ schema, inForce Orders.registry [.snapshot, .replace schema] = ⟨Orders.registry, 1⟩ ∧
      Answered Orders.registry [.snapshot] (.replace schema)
        (.replaced ⟨Orders.registry, 0⟩ ⟨Orders.registry, 1⟩) ∧
      RefersTo Orders.registry [.snapshot, .replace schema] (some 0) ⟨Orders.registry, 0⟩ ∧
      Answered Orders.registry [.snapshot, .replace schema] (.same 0) (.same (some false)) := by
  obtain ⟨schema, hschema⟩ := (snapshots_isolated Orders.registry []).publishable Orders.registry
  have htaken := snapshots_isolated Orders.registry [.snapshot]
  obtain ⟨hinForce, hreplaced⟩ := htaken.replaced schema Orders.registry hschema
  have hrefers : RefersTo Orders.registry [.snapshot] (some 0) ⟨Orders.registry, 0⟩ :=
    .taken (List.nil_append _).symm
  have hstable := htaken.stable 0 ⟨Orders.registry, 0⟩ [.replace schema] Nat.one_pos hrefers
  have hpublished := snapshots_isolated Orders.registry [.snapshot, .replace schema]
  obtain ⟨result, hsame, hiff⟩ := hpublished.same [] [.replace schema] rfl
  have hresult : result = false := by
    -- what was published since is the one registry, which happens to be the same again
    rw [← Bool.not_eq_true, hiff, published, List.filterMap_cons_some (published?_of_ok hschema)]
    exact List.cons_ne_nil _ _
  exact ⟨schema, hinForce, hinForce ▸ hreplaced, hstable, hresult ▸ hsame⟩

end SchemaQuery.Session
