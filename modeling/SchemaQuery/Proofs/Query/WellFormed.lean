import SchemaQuery.Proofs.Query.Acceptance
import SchemaQuery.Proofs.Schema.Construction

/-!
# Well-formed queries

What a query has to be, said without any of the checks: which names are fields of the model,
what a field has to admit where it is used, and how the labels of aggregates may be chosen.
Validation accepts just these queries.

The order of the checks is lost here on purpose.  A name that resolves is not empty, an empty
label is no plain name, and so the checks for empty names, which come first in every section,
say nothing that the others do not.

## Main definitions

* `Query.WellFormed` - a query that a registry answers.
* `Query.WellFormedFor` - the sections of a query suit a model.

## Main statements

* `validate_eq_ok_iff_wellFormed` - **validation accepts exactly the well-formed queries.**
-/

namespace SchemaQuery

/-! ## The sections of a query -/

/-- A comparison names a filterable field and an operator by its spelling, a pattern only
where the field is a text, and holds a value that the operator compares with. -/
def Comparison.WellFormed (m : Model) (c : Comparison) : Prop :=
  ∃ f ∈ m.fields.entries, ∃ op : Operator, f.key = c.field ∧ op.name = c.op ∧
    f.filterable = true ∧ (op.isPattern = true → f.type = .string) ∧ op.Admits c.value

/-- A filter has comparisons, all of them well-formed. -/
structure Filter.WellFormed (m : Model) (filter : Filter) : Prop where
  nonempty : filter.comparisons ≠ []
  comparisons : ∀ c ∈ filter.comparisons, c.WellFormed m

/-- An aggregate counts rows, or applies one of the five functions to an aggregatable field,
which is numeric where the function adds values up.  Its label is a plain name, no reserved
word in any letter case and no field of the model. -/
structure Aggregate.WellFormed (m : Model) (a : Aggregate) : Prop where
  plain : IsPlainName a.label
  unreserved : ∀ word ∈ reservedWords, lowerCase a.label ≠ lowerCase word
  unshadowing : ∀ f ∈ m.fields.entries, f.key ≠ a.label
  applies : ∃ function : AggregateFunction, function.name = a.function ∧
    ((function = .count ∧ (a.field = none ∨ a.field = some "")) ∨
      ∃ f ∈ m.fields.entries, a.field = some f.key ∧ f.aggregatable = true ∧
        (function = .sum ∨ function = .avg → f.type.isNumeric = true))

/-- A sort names a field of the model or one of the given labels, and a direction, which may be
left empty. -/
structure SortKey.WellFormed (m : Model) (labels : List String) (s : SortKey) : Prop where
  target : (∃ f ∈ m.fields.entries, f.key = s.field) ∨ s.field ∈ labels
  direction : s.direction = "" ∨ s.direction = "asc" ∨ s.direction = "desc"

/-- The sections of a query suit a model. -/
structure Query.WellFormedFor (m : Model) (q : Query) : Prop where
  fields : ∀ name ∈ q.fields, ∃ f ∈ m.fields.entries, f.key = name
  filters : ∀ filter ∈ q.filters, filter.WellFormed m
  groupBy : ∀ name ∈ q.groupBy, ∃ f ∈ m.fields.entries, f.key = name ∧ f.groupable = true
  aggregates : ∀ a ∈ q.aggregates, a.WellFormed m
  distinct : (q.aggregates.map (·.label)).Nodup
  sort : ∀ s ∈ q.sort, s.WellFormed m (q.aggregates.map (·.label))
  pagination : ∀ p ∈ q.pagination, 0 < p.limit ∧ 0 ≤ p.offset

/-- A query names a model of the registry, and its sections suit the model. -/
def Query.WellFormed (registry : Registry) (q : Query) : Prop :=
  ∃ m ∈ registry.models.entries, m.key = q.model ∧ q.WellFormedFor m

/-! ## Look-ups -/

/-- No model is named by the empty text. -/
theorem Model.key_ne_empty (m : Model) : m.key ≠ "" :=
  (isIdentifier_iff_isPlainName.mp m.name.valid).ne_empty

namespace Model

variable {m : Model} {name : String}

/-- A look-up finds a field with some property exactly when the model has such a field of that
name. -/
theorem exists_field?_iff {p : Field → Prop} :
    (∃ f, m.field? name = some f ∧ p f) ↔ ∃ f ∈ m.fields.entries, f.key = name ∧ p f := by
  simp only [field?_eq_some_iff, and_assoc]

theorem hasField_iff_exists : m.hasField name = true ↔ ∃ f ∈ m.fields.entries, f.key = name := by
  simp only [hasField_iff, field?_eq_some_iff]

end Model

/-! ## The checks of the sections -/

/-- A comparison is well-formed exactly when it resolves to a field and an operator that admit
it. -/
theorem Comparison.wellFormed_iff {m : Model} {c : Comparison} :
    c.WellFormed m ↔ ∃ f op, c.Admissible m f op := by
  constructor
  · rintro ⟨f, hf, op, hkey, hname, hfilterable, hsuits, hvalue⟩
    exact ⟨f, op, Model.field?_eq_some_iff.mpr ⟨hf, hkey⟩, hfilterable,
      Operator.ofName?_eq_some_iff.mpr hname, hsuits, hvalue⟩
  · rintro ⟨f, op, h⟩
    obtain ⟨hf, hkey⟩ := Model.field?_eq_some_iff.mp h.field
    exact ⟨f, hf, op, hkey, Operator.ofName?_eq_some_iff.mp h.operator, h.filterable, h.suits,
      h.value⟩

theorem Filter.wellFormed_iff {m : Model} {filter : Filter} :
    filter.WellFormed m ↔ Validation.checkFilter m filter = .ok () := by
  simp only [Validation.checkFilter_eq_ok_iff, ← Comparison.wellFormed_iff]
  exact ⟨fun h => ⟨h.nonempty, h.comparisons⟩, fun h => ⟨h.1, h.2⟩⟩

/-- The reserved words are written in lower case. -/
theorem lowerCase_of_mem_reservedWords : ∀ word ∈ reservedWords, lowerCase word = word := by
  decide +kernel

/-- A text is reserved exactly when it is one of the words but for the letter case. -/
theorem isReserved_eq_false_iff {s : String} :
    isReserved s = false ↔ ∀ word ∈ reservedWords, lowerCase s ≠ lowerCase word := by
  have hmem : isReserved s = true ↔ ∃ word ∈ reservedWords, lowerCase s = lowerCase word := by
    rw [isReserved, List.contains_iff_mem]
    constructor
    · intro h
      exact ⟨_, h, (lowerCase_of_mem_reservedWords _ h).symm⟩
    · rintro ⟨word, hword, heq⟩
      rwa [heq, lowerCase_of_mem_reservedWords word hword]
  rw [← Bool.not_eq_true, hmem]
  simp

/-- The field of an aggregate is absent when it is not given or empty. -/
theorem Aggregate.field?_eq_none_iff {a : Aggregate} :
    a.field? = none ↔ a.field = none ∨ a.field = some "" := by
  rw [Aggregate.field?]
  cases a.field with
  | none => simp
  | some name => by_cases hname : name = "" <;> simp [Option.filter, hname]

theorem Aggregate.field?_eq_some_iff {a : Aggregate} {name : String} :
    a.field? = some name ↔ a.field = some name ∧ name ≠ "" := by
  simp [Aggregate.field?, Option.filter_eq_some_iff]

/-- The function of an aggregate applies to the field that it names, or counts rows. -/
theorem Aggregate.applicable_iff {m : Model} {a : Aggregate} :
    a.Applicable m ↔ ∃ function : AggregateFunction, function.name = a.function ∧
      ((function = .count ∧ (a.field = none ∨ a.field = some "")) ∨
        ∃ f ∈ m.fields.entries, a.field = some f.key ∧ f.aggregatable = true ∧
          (function = .sum ∨ function = .avg → f.type.isNumeric = true)) := by
  unfold Aggregate.Applicable
  simp only [AggregateFunction.ofName?_eq_some_iff, ← AggregateFunction.requiresNumeric_iff]
  refine exists_congr fun function => and_congr_right fun _ => ?_
  cases hfield : a.field? with
  | none =>
      have habsent := field?_eq_none_iff.mp hfield
      constructor
      · intro hcount
        exact .inl ⟨hcount, habsent⟩
      · rintro (⟨hcount, -⟩ | ⟨f, -, hnamed, -⟩)
        · exact hcount
        · rw [hnamed] at habsent
          exact absurd habsent (by simp [f.key_ne_empty])
  | some name =>
      obtain ⟨hnamed, hne⟩ := field?_eq_some_iff.mp hfield
      show (∃ f, m.field? name = some f ∧ _) ↔ _
      rw [Model.exists_field?_iff, hnamed]
      constructor
      · rintro ⟨f, hf, rfl, hnumeric, haggregatable⟩
        exact .inr ⟨f, hf, rfl, haggregatable, hnumeric⟩
      · rintro (⟨-, habsent⟩ | ⟨f, hf, hkey, haggregatable, hnumeric⟩)
        · exact absurd habsent (by simp [hne])
        · exact ⟨f, hf, (Option.some.inj hkey).symm, hnumeric, haggregatable⟩

theorem Aggregate.wellFormed_iff {m : Model} {a : Aggregate} :
    a.WellFormed m ↔ a.LabelFree m ∧ a.Applicable m := by
  have hshadow : m.hasField a.label = false ↔ ∀ f ∈ m.fields.entries, f.key ≠ a.label := by
    rw [← Bool.not_eq_true, Model.hasField_iff_exists]
    simp
  rw [Aggregate.applicable_iff]
  constructor
  · intro h
    exact ⟨⟨isIdentifier_iff_isPlainName.mpr h.plain, isReserved_eq_false_iff.mpr h.unreserved,
      hshadow.mpr h.unshadowing⟩, h.applies⟩
  · rintro ⟨hfree, happlies⟩
    exact ⟨isIdentifier_iff_isPlainName.mp hfree.identifier,
      isReserved_eq_false_iff.mp hfree.unreserved, hshadow.mp hfree.unshadowing, happlies⟩

/-- A direction is found under its two spellings, and the ascending one also under none. -/
theorem Direction.exists_ofName?_iff {s : String} :
    (∃ direction, Direction.ofName? s = some direction) ↔ s = "" ∨ s = "asc" ∨ s = "desc" := by
  unfold Direction.ofName?
  rw [← or_assoc]
  split_ifs with hasc hdesc
  · simp [hasc]
  · simp [hdesc]
  · simp [hasc, hdesc]

/-- Sorts pass exactly when they are well-formed, as long as no label is empty: the check for
an empty name then refuses nothing that would name a field or an aggregate. -/
theorem SortKey.forall_wellFormed_iff {m : Model} {labels : List String} {sort : List SortKey}
    (hlabels : ∀ label ∈ labels, label ≠ "") :
    (∀ s ∈ sort, s.WellFormed m labels) ↔
      Validation.checkEach (Validation.checkSort m labels) 0 sort = .ok () := by
  have hone : ∀ (s : SortKey) (index : Nat),
      Validation.checkSort m labels index s = .ok () ↔ s.WellFormed m labels := by
    intro s index
    rw [Validation.checkSort_eq_ok_iff, Model.hasField_iff_exists, Direction.exists_ofName?_iff]
    constructor
    · rintro ⟨-, htarget, hdirection⟩
      exact ⟨htarget, hdirection⟩
    · intro h
      refine ⟨?_, h.target, h.direction⟩
      rcases h.target with ⟨f, -, hkey⟩ | hlabel
      · exact hkey ▸ f.key_ne_empty
      · exact hlabels _ hlabel
  rw [Validation.checkEach_eq_ok_iff, List.forall_mem_iff_getElem]
  simp only [hone]

/-! ## The whole query -/

open Validation in
/-- The sections of a query suit a model exactly when they pass the checks against it. -/
theorem Query.wellFormedFor_iff {m : Model} {q : Query} :
    q.WellFormedFor m ↔
      checkEach (fun _ => checkField m) 0 q.fields = .ok () ∧
        checkOption (checkFilter m) q.filters = .ok () ∧
        checkEach (fun _ => checkGroup m) 0 q.groupBy = .ok () ∧
        checkAggregates m [] 0 q.aggregates = .ok () ∧
        checkEach (checkSort m (q.aggregates.map (·.label))) 0 q.sort = .ok () ∧
        checkOption checkPagination q.pagination = .ok () := by
  have hlabels (h : ∀ a ∈ q.aggregates, a.WellFormed m) :
      ∀ label ∈ q.aggregates.map (·.label), label ≠ "" := by
    intro label hlabel
    obtain ⟨a, ha, rfl⟩ := List.mem_map.mp hlabel
    exact (h a ha).plain.ne_empty
  simp only [checkAll_eq_ok_iff, checkOption_eq_ok_iff, checkField_eq_ok_iff,
    ← Filter.wellFormed_iff, checkGroup_eq_ok_iff, Groupable, checkAggregates_eq_ok_iff,
    ← Aggregate.wellFormed_iff, checkPagination_eq_ok_iff, Model.field?_eq_some_iff, and_assoc]
  constructor
  · intro h
    exact ⟨h.fields, h.filters, h.groupBy, h.aggregates, h.distinct, by simp,
      (SortKey.forall_wellFormed_iff (hlabels h.aggregates)).mp h.sort, h.pagination⟩
  · rintro ⟨hfields, hfilters, hgroups, haggregates, hdistinct, -, hsort, hpagination⟩
    exact ⟨hfields, hfilters, hgroups, haggregates, hdistinct,
      (SortKey.forall_wellFormed_iff (hlabels haggregates)).mpr hsort, hpagination⟩

/-- **Validation accepts exactly the well-formed queries.** -/
theorem validate_eq_ok_iff_wellFormed (registry : Registry) (q : Query) :
    q.validate registry = .ok () ↔ q.WellFormed registry := by
  rw [validate_eq_ok_iff, Query.WellFormed]
  simp only [← Query.wellFormedFor_iff, Registry.model?_eq_some_iff, and_assoc]
  constructor
  · rintro ⟨-, h⟩
    exact h
  · rintro ⟨m, hm, hkey, h⟩
    exact ⟨hkey ▸ m.key_ne_empty, m, hm, hkey, h⟩

end SchemaQuery
