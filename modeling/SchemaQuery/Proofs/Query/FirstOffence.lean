import SchemaQuery.Proofs.Query.Acceptance
import SchemaQuery.Proofs.Translation.Totality

/-!
# The first offence

Validation goes through a query from the model to the pagination and stops at the first
element that offends.  What stands before the element is accepted, and what comes after it is
never looked at: whatever it is replaced by, the query is rejected with the same error.

Two cuts of a query say this.  One is made before the element, the other after it, and both
leave the later sections empty.  The checks of lists are treated together, whether they carry
the labels that they have seen or not: one step decides if a list stops at its head or stops
where its tail does (`Validation.StopsAtItem.head`, `Validation.StopsAtItem.tail`).

There is no second such element.  A query cut before the later of two would be accepted, and
yet it is the same through the earlier one (`Query.StopsAt.not_precedes`).

## Main definitions

* `Place` - where a query can offend, in the order of the checks.
* `Query.before`, `Query.through` - a query cut before a place and after it.
* `Query.StopsAt` - everything before the place is accepted and nothing after it matters.

## Main statements

* `exists_first_offence` - **a rejected query has one first offence, and the error depends on
  nothing after it.**
-/

namespace SchemaQuery

/-! ## Places -/

/-- A place where a query can offend.  A connective without conditions offends as a whole. -/
inductive Place where
  | model
  | field (i : Nat)
  | connective
  | comparison (i : Nat)
  | group (i : Nat)
  | aggregate (i : Nat)
  | sort (i : Nat)
  | pagination

/-- The section of a place, in the order of the checks. -/
def Place.stage : Place → Nat
  | .model => 0
  | .field _ => 1
  | .connective | .comparison _ => 2
  | .group _ => 3
  | .aggregate _ => 4
  | .sort _ => 5
  | .pagination => 6

/-- A place precedes another one in a later section or further on in the same list. -/
inductive Place.Precedes : Place → Place → Prop where
  | stage {p p' : Place} (h : p.stage < p'.stage) : Precedes p p'
  | field {i j : Nat} (h : i < j) : Precedes (.field i) (.field j)
  | comparison {i j : Nat} (h : i < j) : Precedes (.comparison i) (.comparison j)
  | group {i j : Nat} (h : i < j) : Precedes (.group i) (.group j)
  | aggregate {i j : Nat} (h : i < j) : Precedes (.aggregate i) (.aggregate j)
  | sort {i j : Nat} (h : i < j) : Precedes (.sort i) (.sort j)

/-- The first `n` comparisons of a filter, under the same connective. -/
def Filter.take (n : Nat) : Filter → Filter
  | .comparison c => .comparison c
  | .and branches => .and (branches.take n)
  | .or branches => .or (branches.take n)
  | .not c => .not c

theorem Filter.take_take {i n : Nat} (h : i ≤ n) (filter : Filter) :
    (filter.take n).take i = filter.take i := by
  cases filter <;> simp [take, List.take_take, Nat.min_eq_left h]

theorem Filter.take_eq_and_iff {n : Nat} {filter : Filter} {branches : List Comparison} :
    filter.take n = .and branches ↔ ∃ all, filter = .and all ∧ all.take n = branches := by
  cases filter <;> simp [take]

theorem Filter.take_eq_or_iff {n : Nat} {filter : Filter} {branches : List Comparison} :
    filter.take n = .or branches ↔ ∃ all, filter = .or all ∧ all.take n = branches := by
  cases filter <;> simp [take]

namespace Query

/-- The query has something at the place. -/
def Has (q : Query) : Place → Prop
  | .model => True
  | .field i => i < q.fields.length
  | .connective => ∃ filter ∈ q.filters, filter.comparisons = []
  | .comparison i => ∃ filter ∈ q.filters, i < filter.comparisons.length
  | .group i => i < q.groupBy.length
  | .aggregate i => i < q.aggregates.length
  | .sort i => i < q.sort.length
  | .pagination => q.pagination.isSome

/-- The query up to the place: a list is cut before its item, a filter or a pagination is
removed whole, and all later sections are empty. -/
def before (q : Query) : Place → Query
  | .model => {}
  | .field i => { model := q.model, fields := q.fields.take i }
  | .connective | .comparison _ => { model := q.model, fields := q.fields }
  | .group i =>
    { model := q.model, fields := q.fields, filters := q.filters, groupBy := q.groupBy.take i }
  | .aggregate i => { q with aggregates := q.aggregates.take i, sort := [], pagination := none }
  | .sort i => { q with sort := q.sort.take i, pagination := none }
  | .pagination => { q with pagination := none }

/-- The query up to the place and with what stands there: a list is cut after its item, a
filter after its comparison, and all later sections are empty. -/
def through (q : Query) : Place → Query
  | .model => { model := q.model }
  | .field i => { model := q.model, fields := q.fields.take (i + 1) }
  | .connective => { model := q.model, fields := q.fields, filters := q.filters }
  | .comparison i =>
    { model := q.model, fields := q.fields, filters := q.filters.map (Filter.take (i + 1)) }
  | .group i =>
    { model := q.model, fields := q.fields, filters := q.filters,
      groupBy := q.groupBy.take (i + 1) }
  | .aggregate i =>
    { q with aggregates := q.aggregates.take (i + 1), sort := [], pagination := none }
  | .sort i => { q with sort := q.sort.take (i + 1), pagination := none }
  | .pagination => q

/-- **Validation stops at the place with the error.**  The place is in the query.  What stands
before it is accepted, within a filter too.  Every query that is the same up to the place and
at it is rejected with the same error. -/
structure StopsAt (registry : Registry) (q : Query) (place : Place) (e : ValidationError) :
    Prop where
  has : q.Has place
  before : place ≠ .model → (q.before place).validate registry = .ok ()
  earlier : ∀ i, place = .comparison (i + 1) →
    (q.through (.comparison i)).validate registry = .ok ()
  through : ∀ q' : Query, q'.through place = q.through place → q'.validate registry = .error e

variable {registry : Registry} {q : Query} {p p' : Place} {e e' : ValidationError}

/-- What is cut away at a place stands behind every place of an earlier section. -/
theorem through_before_of_stage_lt (h : p.stage < p'.stage) :
    (q.before p').through p = q.through p := by
  cases p <;> cases p' <;> first | rfl | simp [Place.stage] at h

/-- What is cut away at a comparison stands behind every comparison before it. -/
theorem through_through_comparison {i k : Nat} (h : i ≤ k) :
    (q.through (.comparison k)).through (.comparison i) = q.through (.comparison i) := by
  simp only [through, Option.map_map, Function.comp_def, Filter.take_take (Nat.succ_le_succ h)]

/-- A connective without conditions has no comparisons. -/
theorem Has.not_comparison {i : Nat} (h : q.Has .connective) : ¬ q.Has (.comparison i) := by
  obtain ⟨filter, hfilter, hempty⟩ := h
  rintro ⟨filter', hfilter', hi⟩
  obtain rfl := Option.some.inj (hfilter.symm.trans hfilter')
  rw [hempty] at hi
  exact Nat.not_lt_zero _ hi

/-- The places of one section that are in a query stand in order. -/
theorem precedes_or_eq_of_stage_eq (hp : q.Has p) (hp' : q.Has p') (hstage : p.stage = p'.stage) :
    p.Precedes p' ∨ p = p' ∨ p'.Precedes p := by
  have hitems {place : Nat → Place} (h : ∀ {i j}, i < j → (place i).Precedes (place j))
      (i j : Nat) :
      (place i).Precedes (place j) ∨ place i = place j ∨ (place j).Precedes (place i) :=
    (Nat.lt_trichotomy i j).imp h (Or.imp (congrArg place) h)
  cases p <;> cases p' <;> try (cases hstage; done)
  case model.model | connective.connective | pagination.pagination => exact .inr (.inl rfl)
  case connective.comparison => exact absurd hp' hp.not_comparison
  case comparison.connective => exact absurd hp hp'.not_comparison
  case field.field i j => exact hitems .field i j
  case comparison.comparison i j => exact hitems .comparison i j
  case group.group i j => exact hitems .group i j
  case aggregate.aggregate i j => exact hitems .aggregate i j
  case sort.sort i j => exact hitems .sort i j

/-- Validation does not stop at a place that precedes one where it stops: the query up to the
later place is accepted, and it is the same through the earlier one. -/
theorem StopsAt.not_precedes (h : q.StopsAt registry p e) (h' : q.StopsAt registry p' e') :
    ¬ p.Precedes p' := by
  intro hprecedes
  obtain ⟨q₀, haccepted, hsame⟩ :
      ∃ q₀ : Query, q₀.validate registry = .ok () ∧ q₀.through p = q.through p := by
    cases hprecedes with
    | stage hlt =>
        have hne : p' ≠ .model := by
          rintro rfl
          exact Nat.not_lt_zero _ hlt
        exact ⟨_, h'.before hne, through_before_of_stage_lt hlt⟩
    | comparison hlt =>
        obtain ⟨k, rfl⟩ := Nat.exists_eq_succ_of_ne_zero (Nat.ne_zero_of_lt hlt)
        exact ⟨_, h'.earlier k rfl, through_through_comparison (Nat.le_of_lt_succ hlt)⟩
    | field hlt | group hlt | aggregate hlt | sort hlt =>
        exact ⟨_, h'.before nofun, by
          simp [Query.before, Query.through, List.take_take, Nat.min_eq_left hlt]⟩
  cases haccepted.symm.trans (h.through q₀ hsame)

/-- **Validation stops at one place only.** -/
theorem StopsAt.unique (h : q.StopsAt registry p e) (h' : q.StopsAt registry p' e') : p = p' := by
  rcases Nat.lt_trichotomy p.stage p'.stage with hlt | hstage | hgt
  · exact absurd (.stage hlt) (h.not_precedes h')
  · rcases precedes_or_eq_of_stage_eq h.has h'.has hstage with hlt | heq | hgt
    · exact absurd hlt (h.not_precedes h')
    · exact heq
    · exact absurd hgt (h'.not_precedes h)
  · exact absurd (.stage hgt) (h'.not_precedes h)

end Query

/-! ## Checks of lists -/

namespace Validation

open Outcome

theorem then_eq_error_iff {x : Check} {y : Unit → Check} {e : ValidationError} :
    (x >>= y) = .error e ↔ x = .error e ∨ (x = .ok () ∧ y () = .error e) := by
  cases x <;> simp

theorem checkOption_eq_error_iff {α : Type} {check : α → Check} {x : Option α}
    {e : ValidationError} :
    checkOption check x = .error e ↔ ∃ y, x = some y ∧ check y = .error e := by
  cases x <;> simp [checkOption]

/-- A check of lists stops at item `i` of a list: it passes what stands before, and it fails
in the same way whatever comes after. -/
structure StopsAtItem {α : Type} (check : List α → Check) (xs : List α) (i : Nat)
    (e : ValidationError) : Prop where
  inside : i < xs.length
  before : check (xs.take i) = .ok ()
  through : ∀ ys : List α, ys.take (i + 1) = xs.take (i + 1) → check ys = .error e

namespace StopsAtItem

variable {α : Type} {check rest : List α → Check} {first : Check} {x : α} {xs : List α}
  {e : ValidationError}

/-- A list whose head fails stops at its head. -/
theorem head (hnil : check [] = .ok ()) (hcons : ∀ ys, check (x :: ys) = first >>= fun _ => rest ys)
    (hx : first = .error e) : StopsAtItem check (x :: xs) 0 e where
  inside := Nat.succ_pos _
  before := hnil
  through := by
    intro ys hys
    cases ys with
    | nil => cases hys
    | cons y ys =>
        obtain rfl : y = x := by simpa using hys
        rw [hcons, hx]
        rfl

/-- A list whose head passes stops where its tail does. -/
theorem tail {i : Nat} (hcons : ∀ ys, check (x :: ys) = first >>= fun _ => rest ys)
    (hx : first = .ok ()) (h : StopsAtItem rest xs i e) :
    StopsAtItem check (x :: xs) (i + 1) e where
  inside := Nat.succ_lt_succ h.inside
  before := by rw [List.take_succ_cons, hcons, hx, ok_bind, h.before]
  through := by
    intro ys hys
    cases ys with
    | nil => cases hys
    | cons y ys =>
        rw [List.take_succ_cons, List.take_succ_cons, List.cons.injEq] at hys
        obtain ⟨rfl, hys⟩ := hys
        rw [hcons, hx, ok_bind, h.through ys hys]

end StopsAtItem

theorem exists_stopsAtItem_checkEach {α : Type} {check : Nat → α → Check} {index : Nat}
    {xs : List α} {e : ValidationError} (h : checkEach check index xs = .error e) :
    ∃ i, StopsAtItem (checkEach check index) xs i e := by
  induction xs generalizing index with
  | nil => cases h
  | cons x rest ih =>
      rw [checkEach, then_eq_error_iff] at h
      rcases h with hx | ⟨hx, hrest⟩
      · exact ⟨0, .head rfl (fun _ => rfl) hx⟩
      · obtain ⟨i, hi⟩ := ih hrest
        exact ⟨i + 1, .tail (fun _ => rfl) hx hi⟩

variable {m : Model} {e : ValidationError}

theorem exists_stopsAtItem_checkAggregates {earlier : List String} {index : Nat}
    {as : List Aggregate} (h : checkAggregates m earlier index as = .error e) :
    ∃ i, StopsAtItem (checkAggregates m earlier index) as i e := by
  induction as generalizing earlier index with
  | nil => cases h
  | cons a rest ih =>
      rw [checkAggregates, then_eq_error_iff] at h
      rcases h with ha | ⟨ha, hrest⟩
      · exact ⟨0, .head rfl (fun _ => rfl) ha⟩
      · obtain ⟨i, hi⟩ := ih hrest
        exact ⟨i + 1, .tail (fun _ => rfl) ha hi⟩

/-! ## Filters -/

/-- A connective without conditions fails, and otherwise it stops where its conditions do. -/
theorem exists_stopsAtItem_checkBranches {connective : String} {branches : List Comparison}
    (hne : branches ≠ []) (h : checkBranches m connective branches = .error e) :
    ∃ i, StopsAtItem (checkEach (fun _ => checkComparison m) 0) branches i e ∧
      (∀ k, i = k + 1 → checkBranches m connective (branches.take (k + 1)) = .ok ()) ∧
      ∀ branches' : List Comparison, branches'.take (i + 1) = branches.take (i + 1) →
        checkBranches m connective branches' = .error e := by
  have hbranches : ∀ cs : List Comparison, cs ≠ [] →
      checkBranches m connective cs = checkEach (fun _ => checkComparison m) 0 cs := by
    intro cs hcs
    rw [checkBranches, demand, if_pos hcs, ok_bind]
  rw [hbranches branches hne] at h
  obtain ⟨i, hi⟩ := exists_stopsAtItem_checkEach h
  refine ⟨i, hi, ?_, fun branches' hsame => ?_⟩
  · rintro k rfl
    rw [hbranches _ (by simpa using hne), hi.before]
  · have hne' : branches' ≠ [] := by
      rintro rfl
      simp [hne] at hsame
    rw [hbranches branches' hne', hi.through branches' hsame]

/-- **A filter that fails has no comparisons or stops at one of them.** -/
theorem exists_stopsAtItem_checkFilter {filter : Filter} (h : checkFilter m filter = .error e) :
    filter.comparisons = [] ∨
      ∃ i, i < filter.comparisons.length ∧
        (∀ k, i = k + 1 → checkFilter m (filter.take (k + 1)) = .ok ()) ∧
        ∀ filter' : Filter, filter'.take (i + 1) = filter.take (i + 1) →
          checkFilter m filter' = .error e := by
  by_cases hne : filter.comparisons = []
  · exact .inl hne
  refine .inr ?_
  cases filter with
  | comparison c | not c =>
      refine ⟨0, Nat.one_pos, nofun, fun filter' hsame => ?_⟩
      cases filter' <;> cases hsame
      exact h
  | and branches =>
      obtain ⟨i, hi, hearlier, hthrough⟩ := exists_stopsAtItem_checkBranches hne h
      refine ⟨i, hi.inside, hearlier, fun filter' hsame => ?_⟩
      obtain ⟨branches', rfl, hsame'⟩ := Filter.take_eq_and_iff.mp hsame
      exact hthrough branches' hsame'
  | or branches =>
      obtain ⟨i, hi, hearlier, hthrough⟩ := exists_stopsAtItem_checkBranches hne h
      refine ⟨i, hi.inside, hearlier, fun filter' hsame => ?_⟩
      obtain ⟨branches', rfl, hsame'⟩ := Filter.take_eq_or_iff.mp hsame
      exact hthrough branches' hsame'

end Validation

/-! ## The sections one by one -/

open Validation in
/-- A query whose model is found is rejected exactly as the first of its sections that
fails. -/
theorem validate_eq_error_iff {registry : Registry} {q : Query} {m : Model} {e : ValidationError}
    {name : String} (hname : name ≠ "") (hm : registry.model? name = some m) (hq : q.model = name) :
    q.validate registry = .error e ↔
      checkEach (fun _ => checkField m) 0 q.fields = .error e ∨
      checkEach (fun _ => checkField m) 0 q.fields = .ok () ∧
        (checkOption (checkFilter m) q.filters = .error e ∨
        checkOption (checkFilter m) q.filters = .ok () ∧
          (checkEach (fun _ => checkGroup m) 0 q.groupBy = .error e ∨
          checkEach (fun _ => checkGroup m) 0 q.groupBy = .ok () ∧
            (checkAggregates m [] 0 q.aggregates = .error e ∨
            checkAggregates m [] 0 q.aggregates = .ok () ∧
              (checkEach (checkSort m (q.aggregates.map (·.label))) 0 q.sort = .error e ∨
              checkEach (checkSort m (q.aggregates.map (·.label))) 0 q.sort = .ok () ∧
                checkOption checkPagination q.pagination = .error e)))) := by
  subst hq
  rw [Query.validate, demand, if_pos hname, Outcome.ok_bind, hm]
  simp only [then_eq_error_iff]

namespace Query

open Validation

variable {registry : Registry} {q : Query} {m : Model} {e : ValidationError}

theorem stopsAt_model
    (h : ∀ q' : Query, q'.model = q.model → q'.validate registry = .error e) :
    q.StopsAt registry .model e where
  has := trivial
  before := fun hplace => absurd rfl hplace
  earlier := nofun
  through := fun q' hsame => h q' (Query.mk.inj hsame).1

section Sections

variable (hname : q.model ≠ "") (hm : registry.model? q.model = some m)
include hname hm

theorem stopsAt_field {i : Nat}
    (h : StopsAtItem (checkEach (fun _ => checkField m) 0) q.fields i e) :
    q.StopsAt registry (.field i) e where
  has := h.inside
  before := fun _ => validate_eq_ok_iff.mpr ⟨hname, m, hm, h.before, rfl, rfl, rfl, rfl, rfl⟩
  earlier := nofun
  through := by
    intro q' hsame
    obtain ⟨hmodel, hfields, -⟩ := Query.mk.inj hsame
    exact (validate_eq_error_iff hname hm hmodel).mpr (.inl (h.through _ hfields))

variable (hfields : checkEach (fun _ => checkField m) 0 q.fields = .ok ())
include hfields

/-- A filter without comparisons offends as a whole. -/
theorem stopsAt_connective {filter : Filter} (hfilter : q.filters = some filter)
    (hempty : filter.comparisons = []) (h : checkFilter m filter = .error e) :
    q.StopsAt registry .connective e where
  has := ⟨filter, hfilter, hempty⟩
  before := fun _ => validate_eq_ok_iff.mpr ⟨hname, m, hm, hfields, rfl, rfl, rfl, rfl, rfl⟩
  earlier := nofun
  through := by
    intro q' hsame
    obtain ⟨hmodel, hfields', hfilters', -⟩ := Query.mk.inj hsame
    rw [validate_eq_error_iff hname hm hmodel, hfields', hfilters', hfilter]
    exact .inr ⟨hfields, .inl h⟩

theorem stopsAt_comparison {filter : Filter} (hfilter : q.filters = some filter) {i : Nat}
    (hi : i < filter.comparisons.length)
    (hearlier : ∀ k, i = k + 1 → checkFilter m (filter.take (k + 1)) = .ok ())
    (hthrough : ∀ filter' : Filter, filter'.take (i + 1) = filter.take (i + 1) →
      checkFilter m filter' = .error e) :
    q.StopsAt registry (.comparison i) e where
  has := ⟨filter, hfilter, hi⟩
  before := fun _ => validate_eq_ok_iff.mpr ⟨hname, m, hm, hfields, rfl, rfl, rfl, rfl, rfl⟩
  earlier := by
    rintro k ⟨⟩
    have hcut : checkOption (checkFilter m) (q.filters.map (Filter.take (k + 1))) = .ok () := by
      rw [hfilter]
      exact hearlier k rfl
    exact validate_eq_ok_iff.mpr ⟨hname, m, hm, hfields, hcut, rfl, rfl, rfl, rfl⟩
  through := by
    intro q' hsame
    obtain ⟨hmodel, hfields', hfilters, -⟩ := Query.mk.inj hsame
    rw [hfilter, Option.map_some, Option.map_eq_some_iff] at hfilters
    obtain ⟨filter', hfilter', hsame'⟩ := hfilters
    rw [validate_eq_error_iff hname hm hmodel, hfields', hfilter']
    exact .inr ⟨hfields, .inl (hthrough filter' hsame')⟩

variable (hfilters : checkOption (checkFilter m) q.filters = .ok ())
include hfilters

theorem stopsAt_group {i : Nat}
    (h : StopsAtItem (checkEach (fun _ => checkGroup m) 0) q.groupBy i e) :
    q.StopsAt registry (.group i) e where
  has := h.inside
  before := fun _ =>
    validate_eq_ok_iff.mpr ⟨hname, m, hm, hfields, hfilters, h.before, rfl, rfl, rfl⟩
  earlier := nofun
  through := by
    intro q' hsame
    obtain ⟨hmodel, hfields', hfilters', hgroupBy, -⟩ := Query.mk.inj hsame
    rw [validate_eq_error_iff hname hm hmodel, hfields', hfilters']
    exact .inr ⟨hfields, .inr ⟨hfilters, .inl (h.through _ hgroupBy)⟩⟩

variable (hgroupBy : checkEach (fun _ => checkGroup m) 0 q.groupBy = .ok ())
include hgroupBy

theorem stopsAt_aggregate {i : Nat} (h : StopsAtItem (checkAggregates m [] 0) q.aggregates i e) :
    q.StopsAt registry (.aggregate i) e where
  has := h.inside
  before := fun _ =>
    validate_eq_ok_iff.mpr ⟨hname, m, hm, hfields, hfilters, hgroupBy, h.before, rfl, rfl⟩
  earlier := nofun
  through := by
    intro q' hsame
    obtain ⟨hmodel, hfields', hfilters', hgroupBy', haggregates, -⟩ := Query.mk.inj hsame
    rw [validate_eq_error_iff hname hm hmodel, hfields', hfilters', hgroupBy']
    exact .inr ⟨hfields, .inr ⟨hfilters, .inr ⟨hgroupBy, .inl (h.through _ haggregates)⟩⟩⟩

variable (haggregates : checkAggregates m [] 0 q.aggregates = .ok ())
include haggregates

/-- Sorts may name labels, and all labels stand before them. -/
theorem stopsAt_sort {i : Nat}
    (h : StopsAtItem (checkEach (checkSort m (q.aggregates.map (·.label))) 0) q.sort i e) :
    q.StopsAt registry (.sort i) e where
  has := h.inside
  before := fun _ =>
    validate_eq_ok_iff.mpr ⟨hname, m, hm, hfields, hfilters, hgroupBy, haggregates, h.before, rfl⟩
  earlier := nofun
  through := by
    intro q' hsame
    obtain ⟨hmodel, hfields', hfilters', hgroupBy', haggregates', hsort, -⟩ := Query.mk.inj hsame
    rw [validate_eq_error_iff hname hm hmodel, hfields', hfilters', hgroupBy', haggregates']
    exact .inr ⟨hfields, .inr ⟨hfilters, .inr ⟨hgroupBy, .inr ⟨haggregates,
      .inl (h.through _ hsort)⟩⟩⟩⟩

variable (hsort : checkEach (checkSort m (q.aggregates.map (·.label))) 0 q.sort = .ok ())
include hsort

theorem stopsAt_pagination (h : checkOption checkPagination q.pagination = .error e) :
    q.StopsAt registry .pagination e where
  has := by
    cases hpagination : q.pagination with
    | none =>
        rw [hpagination] at h
        cases h
    | some p => rw [Has, hpagination, Option.isSome_some]
  before := fun _ =>
    validate_eq_ok_iff.mpr ⟨hname, m, hm, hfields, hfilters, hgroupBy, haggregates, hsort, rfl⟩
  earlier := nofun
  through := by
    rintro q' (rfl : q' = q)
    exact (validate_eq_error_iff hname hm rfl).mpr (.inr ⟨hfields, .inr ⟨hfilters, .inr ⟨hgroupBy,
      .inr ⟨haggregates, .inr ⟨hsort, h⟩⟩⟩⟩⟩)

end Sections

end Query

open Outcome Validation in
/-- A query that is rejected is rejected at some place. -/
theorem Query.exists_stopsAt {registry : Registry} {q : Query} {e : ValidationError}
    (rejected : q.validate registry = .error e) : ∃ place, q.StopsAt registry place e := by
  by_cases hname : q.model = ""
  · have hmissing : ∀ q' : Query, q'.model = q.model →
        q'.validate registry = .error (.shape .modelMissing) := by
      intro q' hmodel
      rw [Query.validate, demand, if_neg (by simp [hmodel, hname]), error_bind]
    obtain rfl := Except.error.inj ((hmissing q rfl).symm.trans rejected)
    exact ⟨.model, Query.stopsAt_model hmissing⟩
  cases hm : registry.model? q.model with
  | none =>
      have hunknown : ∀ q' : Query, q'.model = q.model →
          q'.validate registry = .error (.unknownModel q.model) := by
        intro q' hmodel
        rw [Query.validate, demand, if_pos (by simp [hmodel, hname]), ok_bind, hmodel, hm]
      obtain rfl := Except.error.inj ((hunknown q rfl).symm.trans rejected)
      exact ⟨.model, Query.stopsAt_model hunknown⟩
  | some m =>
      rcases (validate_eq_error_iff hname hm rfl).mp rejected with h | ⟨hfields, h | ⟨hfilters, h |
        ⟨hgroupBy, h | ⟨haggregates, h | ⟨hsort, h⟩⟩⟩⟩⟩
      · obtain ⟨i, hi⟩ := exists_stopsAtItem_checkEach h
        exact ⟨.field i, Query.stopsAt_field hname hm hi⟩
      · obtain ⟨filter, hfilter, h⟩ := checkOption_eq_error_iff.mp h
        rcases exists_stopsAtItem_checkFilter h with hempty | ⟨i, hi, hearlier, hthrough⟩
        · exact ⟨.connective, Query.stopsAt_connective hname hm hfields hfilter hempty h⟩
        · exact ⟨.comparison i,
            Query.stopsAt_comparison hname hm hfields hfilter hi hearlier hthrough⟩
      · obtain ⟨i, hi⟩ := exists_stopsAtItem_checkEach h
        exact ⟨.group i, Query.stopsAt_group hname hm hfields hfilters hi⟩
      · obtain ⟨i, hi⟩ := exists_stopsAtItem_checkAggregates h
        exact ⟨.aggregate i, Query.stopsAt_aggregate hname hm hfields hfilters hgroupBy hi⟩
      · obtain ⟨i, hi⟩ := exists_stopsAtItem_checkEach h
        exact ⟨.sort i, Query.stopsAt_sort hname hm hfields hfilters hgroupBy haggregates hi⟩
      · exact ⟨.pagination,
          Query.stopsAt_pagination hname hm hfields hfilters hgroupBy haggregates hsort h⟩

/-- **A rejected query has one first offence.**  The query up to the offence is accepted,
unless it is in the model, and whatever comes after the offence, the query is rejected with
the same error. -/
theorem exists_first_offence {registry : Registry} {q : Query} {e : ValidationError}
    (rejected : q.validate registry = .error e) :
    ∃ place, q.StopsAt registry place e ∧
      ∀ place' e', q.StopsAt registry place' e' → place' = place := by
  obtain ⟨place, hplace⟩ := Query.exists_stopsAt rejected
  exact ⟨place, hplace, fun _ _ h => h.unique hplace⟩

/-- A query with a good filter that repeats a label, and then sorts by nothing and skips rows
backwards. -/
def Orders.relabelled : Query where
  model := "orders"
  fields := ["status"]
  filters := some (.or [⟨"status", "is_null", none⟩, ⟨"amount", "not_null", none⟩])
  aggregates := [⟨"count", none, "n"⟩, ⟨"sum", some "amount", "n"⟩, ⟨"median", none, ""⟩]
  sort := [⟨"", ""⟩]
  pagination := some ⟨0, -1⟩

/-- Of its offences the repeated label comes first. -/
theorem exists_first_offence_orders :
    ∃ place, Orders.relabelled.StopsAt Orders.registry place
        (.shape (.aggregate 1 (.labelRepeated "n"))) ∧
      ∀ place' e', Orders.relabelled.StopsAt Orders.registry place' e' → place' = place :=
  exists_first_offence (by rfl)

end SchemaQuery
