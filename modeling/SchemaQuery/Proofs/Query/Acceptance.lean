import SchemaQuery.Proofs.Outcome
import SchemaQuery.Query.Validation

/-!
# What an accepted query is

Validation is a chain of checks that stops at the first offence.  Here every check is turned
into the condition that it passes, so that the stages after validation can use the condition
and never the check.

## Main definitions

* `Operator.Admits` - the values that an operator compares with.
* `Comparison.Admissible`, `Aggregate.Applicable` - a comparison or an aggregate that resolves
  against a model, with what it resolves to.

## Main statements

* `checkComparison_eq_ok_iff`, `checkFilter_eq_ok_iff` - the conditions of filters.
* `checkAggregates_eq_ok_iff` - the condition of a list of aggregates.
* `validate_eq_ok_iff` - the sections of a query pass one by one against one model.
* `admissible_of_validate` - the comparisons of an accepted query resolve.
-/

namespace SchemaQuery

open Json (Value)

/-! ## Names -/

/-- No field is named by the empty text, so a name that resolves is not empty. -/
theorem Field.key_ne_empty (f : Field) : f.key ≠ "" := by
  intro h
  have hvalid := f.name.valid
  rw [show f.name.text = "" from h] at hvalid
  exact absurd hvalid (by decide)

theorem Registry.model?_eq_some_iff {registry : Registry} {name : String} {m : Model} :
    registry.model? name = some m ↔ m ∈ registry.models.entries ∧ m.key = name :=
  Catalog.find?_eq_some_iff

namespace Model

variable {m : Model} {name : String} {f : Field}

/-- A field is found under its own name and no other. -/
theorem field?_eq_some_iff : m.field? name = some f ↔ f ∈ m.fields.entries ∧ f.key = name :=
  Catalog.find?_eq_some_iff

/-- A field that is found has the name under which it was looked up. -/
theorem key_of_field? (h : m.field? name = some f) : f.key = name :=
  (field?_eq_some_iff.mp h).2

theorem ne_empty_of_field? (h : m.field? name = some f) : name ≠ "" :=
  key_of_field? h ▸ f.key_ne_empty

theorem hasField_iff : m.hasField name = true ↔ ∃ f, m.field? name = some f :=
  Option.isSome_iff_exists

end Model

/-! ## What a comparison, a grouping and an aggregate need -/

/-- The values that an operator compares with: none for the null tests, a collection for the
memberships, two bounds that are not null for `between`, a text for the patterns, and for the
others any value at all. -/
def Operator.Admits (op : Operator) (value : Option Value) : Prop :=
  match op with
  | .isNull | .notNull => value = none
  | .isIn | .notIn => ∃ v items, value = some v ∧ v.view = .array items
  | .between =>
    ∃ v low high, value = some v ∧ v.view = .array [low, high] ∧
      low.isNull = false ∧ high.isNull = false
  | .like | .ilike | .startsWith | .endsWith | .contains =>
    ∃ v s, value = some v ∧ v.view = .text s
  | .eq | .ne | .gt | .gte | .lt | .lte | .before | .after => ∃ v, value = some v

/-- A comparison names a filterable field and an operator that suits the type of the field,
and its value is one that the operator admits. -/
structure Comparison.Admissible (m : Model) (c : Comparison) (f : Field) (op : Operator) :
    Prop where
  field : m.field? c.field = some f
  filterable : f.filterable = true
  operator : Operator.ofName? c.op = some op
  suits : op.isPattern = true → f.type = .string
  value : op.Admits c.value

/-- A name is that of a groupable field. -/
def Groupable (m : Model) (name : String) : Prop :=
  ∃ f, m.field? name = some f ∧ f.groupable = true

/-- The label of an aggregate is an identifier, no reserved word and no field of the model. -/
structure Aggregate.LabelFree (m : Model) (a : Aggregate) : Prop where
  identifier : isIdentifier a.label = true
  unreserved : isReserved a.label = false
  unshadowing : m.hasField a.label = false

theorem AggregateFunction.requiresNumeric_iff {function : AggregateFunction} :
    function.requiresNumeric = true ↔ function = .sum ∨ function = .avg := by
  cases function <;> decide

/-- An aggregate names a function, and either counts rows or names an aggregatable field that
is numeric if the function needs numbers. -/
def Aggregate.Applicable (m : Model) (a : Aggregate) : Prop :=
  ∃ function, AggregateFunction.ofName? a.function = some function ∧
    match a.field? with
    | none => function = .count
    | some name => ∃ f, m.field? name = some f ∧
        (function.requiresNumeric = true → f.type.isNumeric = true) ∧ f.aggregatable = true

namespace Validation

open Outcome

variable {m : Model}

/-! ## The pieces of the checks -/

@[simp] theorem demand_eq_ok_iff {p : Prop} [Decidable p] {e : ValidationError} {u : Unit} :
    demand p e = .ok u ↔ p := by
  unfold demand
  split <;> simp_all

@[simp] theorem reject_ne_ok {α : Type} {defect : ShapeDefect} {a : α} :
    reject defect ≠ .ok a := by
  simp [reject]

/-- A check after another passes exactly when both do. -/
theorem then_eq_ok_iff {x : Check} {y : Unit → Check} :
    (x >>= y) = .ok () ↔ x = .ok () ∧ y () = .ok () := by
  rw [bind_eq_ok_iff]
  exact ⟨fun ⟨_, hx, hy⟩ => ⟨hx, hy⟩, fun ⟨hx, hy⟩ => ⟨(), hx, hy⟩⟩

@[simp] theorem resolve_eq_ok_iff {name : String} {f : Field} :
    resolve m name = .ok f ↔ m.field? name = some f := by
  unfold resolve
  split <;> simp_all

/-- A list of checks passes exactly when each item passes at its own position. -/
theorem checkEach_eq_ok_iff {α : Type} {check : Nat → α → Check} {index : Nat} {xs : List α} :
    checkEach check index xs = .ok () ↔
      ∀ (k : Nat) (h : k < xs.length), check (index + k) xs[k] = .ok () := by
  induction xs generalizing index with
  | nil => simp [checkEach]
  | cons x rest ih =>
      rw [checkEach, then_eq_ok_iff, ih]
      constructor
      · rintro ⟨hx, hrest⟩ k h
        cases k with
        | zero => exact hx
        | succ k =>
            rw [show index + (k + 1) = index + 1 + k by omega]
            exact hrest k (by simpa using h)
      · intro h
        refine ⟨h 0 (by simp), fun k hk => ?_⟩
        rw [show index + 1 + k = index + (k + 1) by omega]
        exact h (k + 1) (by simpa using hk)

/-- A list of checks that do not look at positions passes exactly when every item does. -/
theorem checkAll_eq_ok_iff {α : Type} {check : α → Check} {xs : List α} {index : Nat} :
    checkEach (fun _ => check) index xs = .ok () ↔ ∀ x ∈ xs, check x = .ok () := by
  rw [checkEach_eq_ok_iff, List.forall_mem_iff_getElem]

theorem checkOption_eq_ok_iff {α : Type} {check : α → Check} {x : Option α} :
    checkOption check x = .ok () ↔ ∀ y ∈ x, check y = .ok () := by
  cases x <;> simp [checkOption]

/-! ## The sections -/

theorem checkField_eq_ok_iff {name : String} :
    checkField m name = .ok () ↔ ∃ f, m.field? name = some f := by
  rw [checkField, then_eq_ok_iff, demand_eq_ok_iff, bind_eq_ok_iff]
  simp only [resolve_eq_ok_iff, pure_eq_ok, and_true]
  exact ⟨And.right, fun ⟨f, hf⟩ => ⟨Model.ne_empty_of_field? hf, f, hf⟩⟩

/-- A value has no defect exactly when the operator admits it. -/
theorem valueDefect?_eq_none_iff {op : Operator} {value : Option Value} :
    valueDefect? op value = none ↔ op.Admits value := by
  cases value with
  | none => cases op <;> simp [valueDefect?, Operator.takesValue, Operator.Admits]
  | some v =>
      cases op with
      | isNull | notNull => simp [valueDefect?, Operator.takesValue, Operator.Admits]
      | isIn | notIn =>
          simp only [valueDefect?, Operator.takesValue, Operator.takesCollection, Operator.Admits]
          cases hview : v.view <;> simp [hview]
      | between =>
          simp only [valueDefect?, Operator.takesValue, Operator.takesCollection, Operator.Admits,
            Bool.false_eq_true, if_false, if_true]
          split
          · rename_i low high hview
            simp [hview]
          · rename_i hview
            simp only [reduceCtorEq, false_iff]
            rintro ⟨w, low, high, hw, hpair, -⟩
            cases hw
            exact hview low high hpair
      | like | ilike | startsWith | endsWith | contains =>
          simp only [valueDefect?, Operator.takesValue, Operator.takesCollection,
            Operator.isPattern, Operator.Admits]
          cases hview : v.view <;> simp [hview]
      | eq | ne | gt | gte | lt | lte | before | after =>
          simp [valueDefect?, Operator.takesValue, Operator.takesCollection, Operator.isPattern,
            Operator.Admits]

/-- A comparison passes exactly when it resolves to a field and an operator that admit it. -/
theorem checkComparison_eq_ok_iff {c : Comparison} :
    checkComparison m c = .ok () ↔ ∃ f op, c.Admissible m f op := by
  simp only [checkComparison, bind_eq_ok_iff, demand_eq_ok_iff, resolve_eq_ok_iff]
  constructor
  · rintro ⟨-, -, f, hf, -, hfilterable, h⟩
    cases hop : Operator.ofName? c.op with
    | none => simp [hop] at h
    | some op =>
        simp only [hop, then_eq_ok_iff, demand_eq_ok_iff] at h
        obtain ⟨hsuits, hvalue⟩ := h
        refine ⟨f, op, hf, hfilterable, hop, hsuits, valueDefect?_eq_none_iff.mp ?_⟩
        cases hdefect : valueDefect? op c.value with
        | none => rfl
        | some defect => simp [hdefect] at hvalue
  · rintro ⟨f, op, h⟩
    refine ⟨(), Model.ne_empty_of_field? h.field, f, h.field, (), h.filterable, ?_⟩
    simpa [h.operator, then_eq_ok_iff, valueDefect?_eq_none_iff.mpr h.value] using h.suits

/-- A filter passes exactly when its comparisons do and, joined by `and` or `or`, there are
any. -/
theorem checkFilter_eq_ok_iff {filter : Filter} :
    checkFilter m filter = .ok () ↔
      filter.comparisons ≠ [] ∧ ∀ c ∈ filter.comparisons, ∃ f op, c.Admissible m f op := by
  cases filter with
  | comparison c | not c => simp [checkFilter, Filter.comparisons, checkComparison_eq_ok_iff]
  | and branches | or branches =>
      simp [checkFilter, checkBranches, Filter.comparisons, then_eq_ok_iff, checkAll_eq_ok_iff,
        checkComparison_eq_ok_iff]

theorem checkGroup_eq_ok_iff {name : String} :
    checkGroup m name = .ok () ↔ Groupable m name := by
  rw [checkGroup, then_eq_ok_iff, demand_eq_ok_iff, bind_eq_ok_iff]
  simp only [resolve_eq_ok_iff, demand_eq_ok_iff]
  exact ⟨And.right, fun ⟨f, hf, hgroup⟩ => ⟨Model.ne_empty_of_field? hf, f, hf, hgroup⟩⟩

/-- A label has no defect exactly when it is free in the model and new among the labels. -/
theorem labelDefect?_eq_none_iff {earlier : List String} {a : Aggregate} :
    labelDefect? m earlier a.label = none ↔ a.LabelFree m ∧ a.label ∉ earlier := by
  have hnonempty : isIdentifier a.label = true → a.label ≠ "" := by
    rintro hid hempty
    rw [hempty] at hid
    exact absurd hid (by decide)
  unfold labelDefect?
  constructor
  · intro h
    split_ifs at h with hempty hid hreserved hshadow hrepeated
    exact ⟨⟨by simpa using hid, by simpa using hreserved, by simpa using hshadow⟩, hrepeated⟩
  · rintro ⟨hfree, hnew⟩
    simp [hnonempty hfree.identifier, hfree.identifier, hfree.unreserved, hfree.unshadowing, hnew]

theorem checkFunction_eq_ok_iff {i : Nat} {a : Aggregate} :
    checkFunction m i a = .ok () ↔ a.Applicable m := by
  unfold checkFunction Aggregate.Applicable
  cases AggregateFunction.ofName? a.function with
  | none => simp
  | some function =>
      cases a.field? with
      | none => simp
      | some name => simp [bind_eq_ok_iff]

/-- Aggregates pass exactly when each has a free label and applies, and the labels differ from
one another and from those before them. -/
theorem checkAggregates_eq_ok_iff {earlier : List String} {index : Nat} {as : List Aggregate} :
    checkAggregates m earlier index as = .ok () ↔
      (∀ a ∈ as, a.LabelFree m ∧ a.Applicable m) ∧ (as.map (·.label)).Nodup ∧
        ∀ a ∈ as, a.label ∉ earlier := by
  induction as generalizing earlier index with
  | nil => simp [checkAggregates]
  | cons a rest ih =>
      have hhead : checkAggregate m earlier index a = .ok () ↔
          (a.LabelFree m ∧ a.label ∉ earlier) ∧ a.Applicable m := by
        rw [← labelDefect?_eq_none_iff, ← checkFunction_eq_ok_iff (i := index), checkAggregate]
        cases labelDefect? m earlier a.label <;> simp
      rw [checkAggregates, then_eq_ok_iff, hhead, ih]
      simp only [List.forall_mem_cons, List.map_cons, List.nodup_cons, List.mem_map,
        List.mem_append, List.mem_singleton, not_or, not_exists, not_and]
      constructor
      · rintro ⟨⟨⟨hfree, hnew⟩, happ⟩, hrest, hnodup, hearlier⟩
        exact ⟨⟨⟨hfree, happ⟩, hrest⟩, ⟨fun b hb => (hearlier b hb).2, hnodup⟩, hnew,
          fun b hb => (hearlier b hb).1⟩
      · rintro ⟨⟨⟨hfree, happ⟩, hrest⟩, ⟨hdistinct, hnodup⟩, hnew, hearlier⟩
        exact ⟨⟨⟨hfree, hnew⟩, happ⟩, hrest, hnodup, fun b hb => ⟨hearlier b hb, hdistinct b hb⟩⟩

theorem checkSort_eq_ok_iff {labels : List String} {index : Nat} {s : SortKey} :
    checkSort m labels index s = .ok () ↔
      s.field ≠ "" ∧ (m.hasField s.field = true ∨ s.field ∈ labels) ∧
        ∃ direction, Direction.ofName? s.direction = some direction := by
  simp [checkSort, then_eq_ok_iff, Option.isSome_iff_exists]

theorem checkPagination_eq_ok_iff {p : Pagination} :
    checkPagination p = .ok () ↔ 0 < p.limit ∧ 0 ≤ p.offset := by
  rw [checkPagination, then_eq_ok_iff, demand_eq_ok_iff, demand_eq_ok_iff]

end Validation

open Validation in
/-- **A query is accepted exactly when all its sections pass against the model that it
names.** -/
theorem validate_eq_ok_iff {registry : Registry} {query : Query} :
    query.validate registry = .ok () ↔
      query.model ≠ "" ∧ ∃ m, registry.model? query.model = some m ∧
        checkEach (fun _ => checkField m) 0 query.fields = .ok () ∧
        checkOption (checkFilter m) query.filters = .ok () ∧
        checkEach (fun _ => checkGroup m) 0 query.groupBy = .ok () ∧
        checkAggregates m [] 0 query.aggregates = .ok () ∧
        checkEach (checkSort m (query.aggregates.map (·.label))) 0 query.sort = .ok () ∧
        checkOption checkPagination query.pagination = .ok () := by
  rw [Query.validate, then_eq_ok_iff, demand_eq_ok_iff]
  cases registry.model? query.model with
  | none => simp
  | some m => simp [then_eq_ok_iff]

/-- The comparisons of an accepted query resolve against the model that it names. -/
theorem admissible_of_validate {registry : Registry} {query : Query} {m : Model}
    (h : query.validate registry = .ok ()) (hm : registry.model? query.model = some m) :
    ∀ filter ∈ query.filters, ∀ c ∈ filter.comparisons, ∃ f op, c.Admissible m f op := by
  obtain ⟨-, m', hm', -, hfilters, -⟩ := validate_eq_ok_iff.mp h
  obtain rfl := Option.some.inj (hm.symm.trans hm')
  rw [Validation.checkOption_eq_ok_iff] at hfilters
  exact fun filter mem => (Validation.checkFilter_eq_ok_iff.mp (hfilters filter mem)).2

end SchemaQuery
