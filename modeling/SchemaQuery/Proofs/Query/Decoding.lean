import SchemaQuery.Proofs.Outcome
import SchemaQuery.Query.Document

/-!
# What a decoded query holds

A record is read member by member into a blank one, so that what holds of the blank and
survives every member holds of what was read (`Record.holds_of_toRecord`).  For queries this
gives the one fact about decoding on which typing rests: a written `null` stands for no value,
and so no comparison of a decoded query has `null` for its value.  A query that was put
together by hand may well have one.

## Main definitions

* `Query.HasNoNull` - no comparison of a query has `null` for its value.

## Main statements

* `Json.Record.holds_of_toRecord` - an invariant of the members is one of the record.
* `Query.hasNoNull_of_ofDocument` - a decoded query compares with no `null`.
-/

namespace SchemaQuery

open Json (Document Record Decoded Value)
open Outcome

/-! ## Invariants of records -/

namespace Json

/-- The step to a part says where a failure was and nothing about success. -/
@[simp] theorem under_eq_ok_iff {α : Type} {step : Step} {x : Decoded α} {a : α} :
    under step x = .ok a ↔ x = .ok a := by
  cases x with
  | ok b => rfl
  | error e => cases e <;> simp [under]

@[simp] theorem offend_ne_ok {α : Type} {fault : Fault} {a : α} : offend fault ≠ .ok a := by
  simp [offend]

theorem Document.mismatch_ne_ok {α : Type} {d : Document} {expected : String} {a : α} :
    d.mismatch expected ≠ .ok a := by
  intro h
  obtain ⟨found, -, h⟩ := bind_eq_ok_iff.mp h
  exact offend_ne_ok h

/-- An optional value that was read is there and was read by its own reader. -/
theorem Document.exists_of_toOption {α : Type} {read : Document → Decoded α} {d : Document}
    {x : Option α} (h : d.toOption read = .ok x) {a : α} (ha : a ∈ x) : read d = .ok a := by
  unfold toOption at h
  split at h
  · obtain rfl := Except.ok.inj h
    cases ha
  · obtain ⟨b, hb, h⟩ := bind_eq_ok_iff.mp h
    obtain rfl := Except.ok.inj h
    rw [hb, Option.some.inj ha]

namespace Record

variable {α : Type} {r : Record α} {P : α → Prop}

theorem holds_of_readMembers (hplace : ∀ a name d b, P a → r.place a name d = .ok b → P b)
    {members : List (Option String × Document)} {met names : List String} {a b : α} (ha : P a)
    (h : r.readMembers met a members = .ok (names, b)) : P b := by
  induction members generalizing met a with
  | nil =>
      obtain ⟨-, rfl⟩ := Prod.mk.inj (Except.ok.inj h)
      exact ha
  | cons member rest ih =>
      obtain ⟨name, value⟩ := member
      cases name with
      | none => cases h
      | some name =>
          rw [readMembers] at h
          split_ifs at h with hknown hmet
          · exact absurd h offend_ne_ok
          · obtain ⟨c, hc, h⟩ := bind_eq_ok_iff.mp h
            exact ih (hplace _ _ _ _ ha (under_eq_ok_iff.mp hc)) h
          · exact ih ha h

theorem holds_of_readItems (hplace : ∀ a name d b, P a → r.place a name d = .ok b → P b)
    {origin : Origin} {members : List (String × Presence)} {items : List Document} {index : Nat}
    {a b : α} (ha : P a) (h : r.readItems origin a index members items = .ok b) : P b := by
  induction members generalizing items index a with
  | nil =>
      cases items with
      | nil =>
          obtain rfl := Except.ok.inj h
          exact ha
      | cons item rest =>
          cases origin with
          | text => cases h
          | memory => exact absurd h offend_ne_ok
  | cons member rest ih =>
      obtain ⟨name, presence⟩ := member
      cases items with
      | nil =>
          rw [readItems] at h
          split_ifs at h with hdefault
          · exact ih ha h
          · exact absurd h offend_ne_ok
      | cons item items =>
          obtain ⟨c, hc, h⟩ := bind_eq_ok_iff.mp h
          exact ih (hplace _ _ _ _ ha (under_eq_ok_iff.mp hc)) h

/-- **What holds of the blank record and survives the reading of every member holds of a
record that was read**, from an object or from an array. -/
theorem holds_of_toRecord (hblank : P r.blank)
    (hplace : ∀ a name d b, P a → r.place a name d = .ok b → P b) {origin : Origin} {d : Document}
    {a : α} (h : d.toRecord r origin = .ok a) : P a := by
  cases d with
  | object members =>
      obtain ⟨⟨met, b⟩, hread, h⟩ := bind_eq_ok_iff.mp h
      have hb : P b := holds_of_readMembers hplace hblank hread
      dsimp only at h
      split at h
      · exact absurd h offend_ne_ok
      · exact Except.ok.inj h ▸ hb
  | array items => exact holds_of_readItems hplace hblank h
  | null | bool | number | text => exact absurd h Document.mismatch_ne_ok

end Record

end Json

/-! ## Comparisons and filters -/

@[simp] theorem mismatchValue_ne_ok {α : Type} {v : Value} {expected : String} {a : α} :
    mismatchValue v expected ≠ .ok a :=
  Json.offend_ne_ok

/-- The comparison has a value other than `null`, or none. -/
def Comparison.HasNoNull (c : Comparison) : Prop := ∀ v ∈ c.value, v.isNull = false

/-- No comparison of the filter has `null` for its value. -/
def Filter.HasNoNull (filter : Filter) : Prop := ∀ c ∈ filter.comparisons, c.HasNoNull

/-- No comparison of the query has `null` for its value. -/
def Query.HasNoNull (q : Query) : Prop := ∀ filter ∈ q.filters, filter.HasNoNull

/-- A step that keeps a property, taken once for every item of a list, keeps it over the
list. -/
theorem holds_of_foldlM {α β : Type} {P : α → Prop} {step : α → β → Decoded α}
    (hstep : ∀ a x b, P a → step a x = .ok b → P b) {xs : List β} {a b : α} (ha : P a)
    (h : xs.foldlM step a = .ok b) : P b := by
  induction xs generalizing a with
  | nil => exact Except.ok.inj h ▸ ha
  | cons x rest ih =>
      rw [List.foldlM_cons] at h
      obtain ⟨c, hc, h⟩ := bind_eq_ok_iff.mp h
      exact ih (hstep a x c ha hc) h

namespace Comparison

/-- Reading a member keeps a comparison without `null`: a `null` that is written for the value
is read as none. -/
theorem hasNoNull_of_place {c d : Comparison} {member : String × Value} (hc : c.HasNoNull)
    (h : c.place member.1 member.2 = .ok d) : d.HasNoNull := by
  unfold place at h
  split at h
  · obtain ⟨s, -, h⟩ := bind_eq_ok_iff.mp h
    exact Except.ok.inj h ▸ hc
  · obtain ⟨s, -, h⟩ := bind_eq_ok_iff.mp h
    exact Except.ok.inj h ▸ hc
  · obtain rfl := Except.ok.inj h
    intro v hv
    unfold optionOfValue at hv
    split at hv
    · cases hv
    · rename_i hnull
      exact Option.some.inj hv ▸ Bool.not_eq_true _ ▸ hnull
  · exact absurd h Json.offend_ne_ok

/-- **A decoded comparison does not compare with `null`.** -/
theorem hasNoNull_of_ofValue {v : Value} {c : Comparison} (h : ofValue v = .ok c) :
    c.HasNoNull := by
  have hblank : ({} : Comparison).HasNoNull := by
    intro w hw
    cases hw
  unfold ofValue at h
  split at h
  · exact holds_of_foldlM (fun _ _ _ => hasNoNull_of_place) hblank h
  · obtain ⟨d, hd, h⟩ := bind_eq_ok_iff.mp h
    split at h
    · exact Except.ok.inj h ▸ holds_of_foldlM (fun _ _ _ => hasNoNull_of_place) hblank hd
    · exact absurd h Json.offend_ne_ok
  · exact absurd h mismatchValue_ne_ok

end Comparison

namespace Filter

theorem hasNoNull_of_branchesOfValue {v : Value} {cs : List Comparison}
    (h : branchesOfValue v = .ok cs) : ∀ c ∈ cs, c.HasNoNull := by
  unfold branchesOfValue at h
  split at h
  · intro c hc
    obtain ⟨item, -, hitem⟩ := exists_of_mem_mapM h hc
    exact Comparison.hasNoNull_of_ofValue hitem
  · exact absurd h mismatchValue_ne_ok

theorem hasNoNull_of_ofConnective {key : String} {v : Value} {filter : Filter}
    (h : ofConnective key v = .ok filter) : filter.HasNoNull := by
  unfold ofConnective at h
  split at h
  · obtain ⟨cs, hcs, h⟩ := bind_eq_ok_iff.mp h
    exact Except.ok.inj h ▸ hasNoNull_of_branchesOfValue hcs
  · obtain ⟨cs, hcs, h⟩ := bind_eq_ok_iff.mp h
    exact Except.ok.inj h ▸ hasNoNull_of_branchesOfValue hcs
  · obtain ⟨c, hc, h⟩ := bind_eq_ok_iff.mp h
    obtain rfl := Except.ok.inj h
    exact List.forall_mem_singleton.mpr (Comparison.hasNoNull_of_ofValue hc)

theorem hasNoNull_of_ofValue {v : Value} {filter : Filter} (h : ofValue v = .ok filter) :
    filter.HasNoNull := by
  unfold ofValue at h
  split at h
  · dsimp only at h
    split_ifs at h with hfield hconnective
    · exact absurd h Json.offend_ne_ok
    · obtain ⟨c, hc, h⟩ := bind_eq_ok_iff.mp h
      obtain rfl := Except.ok.inj h
      exact List.forall_mem_singleton.mpr (Comparison.hasNoNull_of_ofValue hc)
    · split at h
      · exact absurd h Json.offend_ne_ok
      · exact hasNoNull_of_ofConnective h
      · exact absurd h Json.offend_ne_ok
      · exact absurd h Json.offend_ne_ok
  · exact absurd h mismatchValue_ne_ok

theorem hasNoNull_of_ofDocument {d : Document} {filter : Filter} (h : ofDocument d = .ok filter) :
    filter.HasNoNull := by
  cases d with
  | object members =>
      obtain ⟨v, -, h⟩ := bind_eq_ok_iff.mp h
      exact hasNoNull_of_ofValue h
  | null | bool | number | text | array => exact absurd h Document.mismatch_ne_ok

end Filter

/-! ## Queries -/

/-- The filter of a decoded query was decoded from a part of its document. -/
theorem Query.exists_filter_ofDocument {d : Document} {q : Query} (h : ofDocument d = .ok q) :
    ∀ filter ∈ q.filters, ∃ part, Filter.ofDocument part = .ok filter := by
  refine Record.holds_of_toRecord (r := record)
    (P := fun q => ∀ filter ∈ q.filters, ∃ part, Filter.ofDocument part = .ok filter)
    (fun filter hfilter => by cases hfilter) ?_ h
  intro q name d r hq hr
  simp only [record] at hr
  split at hr
  -- only the member `filters` touches the filter
  case h_3 =>
    obtain ⟨filters, hfilters, hr⟩ := bind_eq_ok_iff.mp hr
    obtain rfl := Except.ok.inj hr
    exact fun filter hfilter => ⟨d, Document.exists_of_toOption hfilters hfilter⟩
  all_goals first
    | exact Except.ok.inj hr ▸ hq
    | obtain ⟨part, -, hr⟩ := bind_eq_ok_iff.mp hr
      exact Except.ok.inj hr ▸ hq

/-- **A decoded query compares with no `null`.** -/
theorem Query.hasNoNull_of_ofDocument {d : Document} {q : Query} (h : ofDocument d = .ok q) :
    q.HasNoNull := by
  intro filter hfilter
  obtain ⟨part, hpart⟩ := exists_filter_ofDocument h filter hfilter
  exact Filter.hasNoNull_of_ofDocument hpart

end SchemaQuery
