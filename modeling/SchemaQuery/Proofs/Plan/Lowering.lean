import SchemaQuery.Plan.Lowering
import SchemaQuery.Proofs.Query.Acceptance
import SchemaQuery.Proofs.Sql.Statement

/-!
# Planning an accepted query

Planning looks up again what validation has looked up before it.  For a query that was
accepted against the same registry every look-up succeeds, and what it finds is fit to be
emitted: this is where the checks of `Proofs.Query.Acceptance` meet the needs of
`Proofs.Sql.Emission`.

## Main definitions

* `Field.column` - the column of a field.
* `Filter.connective?` - how a filter joins its comparisons.

## Main statements

* `conditionOf_eq_ok_iff` - a filter becomes the conditions of its comparisons, joined in its
  way.
* `emittable_of_conditionOf` - a filter whose values suit their operators becomes a tree
  without defects.
* `exists_conditionOf` - an accepted filter becomes such a tree.
* `exists_aggregationOf` - an accepted aggregate resolves, and lacks a column only to count
  rows.
* `exists_orderingOf` - an accepted sort resolves to a field or to an aggregate of the plan.
* `exists_ofQuery` - an accepted query has a plan, and the plan has no defect.
-/

namespace SchemaQuery

open Json (Value)
open Outcome

/-- The column of a field in every plan. -/
def Field.column (f : Field) : Plan.Column := ⟨Plan.rootAlias, f.key, f.type⟩

/-- A value that an operator admits is one that it can be emitted with. -/
theorem Operator.Admits.emittable {op : Operator} {value : Option Value} (h : op.Admits value)
    (column : Plan.Column) (type : FieldType) :
    (⟨column, op, value.map fun v => ⟨v, type⟩⟩ : Plan.Leaf).Emittable := by
  cases op with
  | isNull | notNull => trivial
  | isIn | notIn =>
      obtain ⟨v, items, rfl, -⟩ := h
      trivial
  | between =>
      obtain ⟨v, low, high, rfl, hview, -, -⟩ := h
      exact ⟨low, high, hview⟩
  | like | ilike =>
      obtain ⟨v, s, rfl, -⟩ := h
      trivial
  | startsWith | endsWith | contains =>
      obtain ⟨v, s, rfl, hview⟩ := h
      exact ⟨s, hview⟩
  | eq | ne | gt | gte | lt | lte | before | after =>
      obtain ⟨v, rfl⟩ := h
      trivial

/-- An operator that takes no value admits none. -/
theorem Operator.Admits.eq_none {op : Operator} {value : Option Value} (h : op.Admits value)
    (htakes : op.takesValue = false) : value = none := by
  cases op with
  | isNull | notNull => exact h
  | _ => exact absurd htakes (by decide)

/-- An operator keeps every value that it admits, since one that takes no value admits none. -/
theorem Operator.Admits.ite_takesValue {op : Operator} {value : Option Value} (h : op.Admits value)
    {α : Type} (g : Value → α) :
    (if op.takesValue then value.map g else none) = value.map g := by
  cases htakes : op.takesValue with
  | true => rfl
  | false => rw [h.eq_none htakes]; rfl

/-- How the comparisons of a filter are joined; a comparison on its own is not joined at
all. -/
def Filter.connective? : Filter → Option Connective
  | .comparison _ => none
  | .and _ => some .and
  | .or _ => some .or
  | .not _ => some .not

namespace Plan

variable {m : Model}

/-! ## Look-ups -/

@[simp] theorem require_eq_ok_iff {α : Type} {e : PlanError} {x : Option α} {a : α} :
    require e x = .ok a ↔ x = some a := by
  cases x <;> simp [require]

/-- A name has a column exactly when it is a field, and then the column of the field. -/
theorem columnOf_eq_ok_iff {name : String} {c : Column} :
    columnOf m name = .ok c ↔ ∃ f, m.field? name = some f ∧ c = f.column := by
  simp [columnOf, bind_eq_ok_iff, Field.column, eq_comm (b := c)]

/-- A projected name becomes the column of its field, under the name itself. -/
theorem selectionOf_eq_ok_iff {name : String} {s : Selection} :
    selectionOf m name = .ok s ↔ ∃ f, m.field? name = some f ∧ s = ⟨f.column, name, false⟩ := by
  simp only [selectionOf, bind_eq_ok_iff, columnOf_eq_ok_iff, pure_eq_ok, Except.ok.injEq,
    eq_comm (b := s)]
  constructor
  · rintro ⟨_, ⟨f, hf, rfl⟩, rfl⟩
    exact ⟨f, hf, rfl⟩
  · rintro ⟨f, hf, rfl⟩
    exact ⟨_, ⟨f, hf, rfl⟩, rfl⟩

theorem exists_selectionOf {name : String} (h : ∃ f, m.field? name = some f) :
    ∃ s, selectionOf m name = .ok s := by
  obtain ⟨f, hf⟩ := h
  have hcolumn : columnOf m name = .ok f.column := columnOf_eq_ok_iff.mpr ⟨f, hf, rfl⟩
  exact ⟨⟨f.column, name, false⟩, by rw [selectionOf, hcolumn]; rfl⟩

theorem rootOf_eq_ok_iff {r : Root} :
    rootOf m = .ok r ↔ ∃ f, m.field? m.primaryKey = some f ∧
      r = ⟨m.key, m.table.text, rootAlias, f.column⟩ := by
  simp only [rootOf, bind_eq_ok_iff, columnOf_eq_ok_iff, pure_eq_ok, Except.ok.injEq,
    eq_comm (b := r)]
  constructor
  · rintro ⟨_, ⟨f, hf, rfl⟩, rfl⟩
    exact ⟨f, hf, rfl⟩
  · rintro ⟨f, hf, rfl⟩
    exact ⟨_, ⟨f, hf, rfl⟩, rfl⟩

/-- The primary key of a model is one of its fields, so the model itself always resolves. -/
theorem exists_rootOf (m : Model) : ∃ r, rootOf m = .ok r := by
  obtain ⟨f, hf⟩ := Model.hasField_iff.mp m.primaryKey_declared
  have hcolumn : columnOf m m.primaryKey = .ok f.column := columnOf_eq_ok_iff.mpr ⟨f, hf, rfl⟩
  exact ⟨⟨m.key, m.table.text, rootAlias, f.column⟩, by rw [rootOf, hcolumn]; rfl⟩

/-- An optional part succeeds exactly when it is absent or its content does. -/
theorem optional_eq_ok_iff {α β : Type} {f : α → Except PlanError β} {x : Option α}
    {y : Option β} :
    optional f x = .ok y ↔
      (x = none ∧ y = none) ∨ ∃ a b, x = some a ∧ f a = .ok b ∧ y = some b := by
  cases x with
  | none => simp [optional, eq_comm (b := y)]
  | some a => simp [optional, bind_eq_ok_iff, eq_comm (b := y)]

theorem exists_optional {α β : Type} {f : α → Except PlanError β} {p : β → Prop} {x : Option α}
    (h : ∀ a ∈ x, ∃ b, f a = .ok b ∧ p b) : ∃ y, optional f x = .ok y ∧ ∀ b ∈ y, p b := by
  cases x with
  | none => exact ⟨none, rfl, by simp⟩
  | some a =>
      obtain ⟨b, hb, hp⟩ := h a rfl
      exact ⟨some b, by rw [optional, hb]; rfl, by simpa using hp⟩

/-! ## Filters -/

/-- A comparison resolves exactly when its field and its operator do.  A null test drops the
value, and every other operator keeps it as it is. -/
theorem comparisonOf_eq_ok_iff {c : Comparison} {g : Condition} :
    comparisonOf m c = .ok g ↔
      ∃ f op, m.field? c.field = some f ∧ Operator.ofName? c.op = some op ∧
        g = .comparison f.column op
          (if op.takesValue then c.value.map fun v => ⟨v, f.type⟩ else none) := by
  simp only [comparisonOf, bind_eq_ok_iff, columnOf_eq_ok_iff, require_eq_ok_iff, pure_eq_ok,
    Except.ok.injEq, eq_comm (b := g)]
  constructor
  · rintro ⟨_, ⟨f, hf, rfl⟩, op, hop, rfl⟩
    exact ⟨f, op, hf, hop, rfl⟩
  · rintro ⟨f, op, hf, hop, rfl⟩
    exact ⟨_, ⟨f, hf, rfl⟩, op, hop, rfl⟩

/-- An admissible comparison becomes the comparison of the column with the value, tagged with
the type of the column. -/
theorem comparisonOf_of_admissible {c : Comparison} {f : Field} {op : Operator}
    (h : c.Admissible m f op) :
    comparisonOf m c = .ok (.comparison f.column op (c.value.map fun v => ⟨v, f.type⟩)) := by
  exact comparisonOf_eq_ok_iff.mpr ⟨f, op, h.field, h.operator, by rw [h.value.ite_takesValue]⟩

/-- A filter becomes its only comparison, or its connective over its comparisons. -/
theorem conditionOf_eq_ok_iff {filter : Filter} {g : Condition} :
    conditionOf m filter = .ok g ↔
      ∃ nodes, filter.comparisons.mapM (comparisonOf m) = .ok nodes ∧
        match filter.connective? with
        | none => nodes = [g]
        | some op => g = .logical op nodes := by
  cases filter <;>
    simp [conditionOf, Filter.comparisons, Filter.connective?, bind_eq_ok_iff, eq_comm (b := g)]

/-- A comparison whose value suits its operator becomes a node without a defect. -/
theorem emittable_of_comparisonOf {c : Comparison} {g : Condition} {op : Operator}
    (hop : Operator.ofName? c.op = some op) (hvalue : op.Admits c.value)
    (h : comparisonOf m c = .ok g) : g.Emittable := by
  obtain ⟨f, op', -, hop', rfl⟩ := comparisonOf_eq_ok_iff.mp h
  obtain rfl : op = op' := Option.some.inj (hop.symm.trans hop')
  rw [hvalue.ite_takesValue]
  exact hvalue.emittable f.column f.type

/-- **A filter becomes a tree without defects**, if it has comparisons and their values suit
their operators.  The model plays no part in this. -/
theorem emittable_of_conditionOf {filter : Filter} {g : Condition} (hne : filter.comparisons ≠ [])
    (hvalues : ∀ c ∈ filter.comparisons, ∃ op, Operator.ofName? c.op = some op ∧ op.Admits c.value)
    (h : conditionOf m filter = .ok g) : g.Emittable := by
  obtain ⟨nodes, hnodes, hg⟩ := conditionOf_eq_ok_iff.mp h
  have hlength : nodes.length = filter.comparisons.length :=
    (mapM_eq_ok_iff.mp hnodes).length_eq.symm
  have heach : ∀ node ∈ nodes, node.Emittable := by
    intro node hnode
    obtain ⟨c, hc, hnode⟩ := exists_of_mem_mapM hnodes hnode
    obtain ⟨op, hop, hvalue⟩ := hvalues c hc
    exact emittable_of_comparisonOf hop hvalue hnode
  have hall : Condition.AreEmittable nodes := Condition.areEmittable_iff.mpr heach
  cases filter with
  | comparison c =>
      obtain rfl : nodes = [g] := hg
      exact heach g List.mem_cons_self
  | and branches =>
      obtain rfl : g = .logical .and nodes := hg
      exact ⟨List.ne_nil_of_length_pos (hlength ▸ List.length_pos_of_ne_nil hne), hall⟩
  | or branches =>
      obtain rfl : g = .logical .or nodes := hg
      exact ⟨List.ne_nil_of_length_pos (hlength ▸ List.length_pos_of_ne_nil hne), hall⟩
  | not c =>
      obtain rfl : g = .logical .not nodes := hg
      exact ⟨hlength, hall⟩

/-- **An accepted filter becomes a tree without defects.** -/
theorem exists_conditionOf {filter : Filter} (hne : filter.comparisons ≠ [])
    (h : ∀ c ∈ filter.comparisons, ∃ f op, c.Admissible m f op) :
    ∃ g, conditionOf m filter = .ok g ∧ g.Emittable := by
  have heach : ∀ c ∈ filter.comparisons, ∃ node, comparisonOf m c = .ok node := by
    intro c hc
    obtain ⟨f, op, hc⟩ := h c hc
    exact ⟨_, comparisonOf_of_admissible hc⟩
  obtain ⟨nodes, hnodes⟩ := exists_mapM_eq_ok_iff.mpr heach
  have hcondition : ∃ g, conditionOf m filter = .ok g := by
    cases filter with
    | comparison c => exact heach c List.mem_cons_self
    | and branches | or branches | not c =>
        exact ⟨.logical _ nodes, conditionOf_eq_ok_iff.mpr ⟨nodes, hnodes, rfl⟩⟩
  obtain ⟨g, hg⟩ := hcondition
  refine ⟨g, hg, emittable_of_conditionOf hne (fun c hc => ?_) hg⟩
  obtain ⟨f, op, hc⟩ := h c hc
  exact ⟨op, hc.operator, hc.value⟩

/-! ## Aggregates and sorts -/

/-- An aggregate resolves exactly when its function and its field do and it does not lack a
column where it needs one. -/
theorem aggregationOf_eq_ok_iff {a : Aggregate} {b : Aggregation} :
    aggregationOf m a = .ok b ↔
      AggregateFunction.ofName? a.function = some b.function ∧
        optional (columnOf m) a.field? = .ok b.column ∧ b.Emittable ∧ b.label = a.label := by
  simp only [aggregationOf, bind_eq_ok_iff, require_eq_ok_iff, Aggregation.Emittable]
  constructor
  · rintro ⟨function, hfunction, column, hcolumn, h⟩
    split_ifs at h with hmissing
    obtain rfl := Except.ok.inj h
    exact ⟨hfunction, hcolumn, fun hnone => by_contra fun hne => hmissing ⟨hnone, hne⟩, rfl⟩
  · rintro ⟨hfunction, hcolumn, hcount, hlabel⟩
    refine ⟨b.function, hfunction, b.column, hcolumn, ?_⟩
    rw [if_neg fun hmissing => hmissing.2 (hcount hmissing.1), ← hlabel]
    rfl

/-- What an aggregate of a query becomes keeps its label, and lacks a column only to count
rows. -/
theorem aggregationOf_spec {a : Aggregate} {b : Aggregation} (h : aggregationOf m a = .ok b) :
    b.label = a.label ∧ b.Emittable := by
  obtain ⟨-, -, hemit, hlabel⟩ := aggregationOf_eq_ok_iff.mp h
  exact ⟨hlabel, hemit⟩

theorem exists_aggregationOf {a : Aggregate} (h : a.Applicable m) :
    ∃ b, aggregationOf m a = .ok b := by
  obtain ⟨function, hfunction, htarget⟩ := h
  rw [aggregationOf, hfunction]
  cases hfield : a.field? with
  | none =>
      rw [hfield] at htarget
      exact ⟨⟨function, none, a.label⟩, by simp [require, optional, htarget]⟩
  | some name =>
      rw [hfield] at htarget
      obtain ⟨f, hf, -, -⟩ := htarget
      have hcolumn : columnOf m name = .ok f.column := columnOf_eq_ok_iff.mpr ⟨f, hf, rfl⟩
      exact ⟨⟨function, some f.column, a.label⟩, by simp [require, optional, hcolumn]⟩

/-- A sort resolves to the field of its name, or where there is none to the first aggregate of
that label. -/
theorem sortTargetOf_eq_ok_iff {aggregates : List Aggregation} {name : String}
    {target : SortTarget} :
    sortTargetOf m aggregates name = .ok target ↔
      (∃ f, m.field? name = some f ∧ target = .column f.column) ∨
        (m.hasField name = false ∧
          ∃ a, aggregates.find? (·.label = name) = some a ∧ target = .aggregate a) := by
  unfold sortTargetOf
  cases hfield : m.hasField name with
  | true =>
      simp only [if_true, bind_eq_ok_iff, columnOf_eq_ok_iff, pure_eq_ok, Except.ok.injEq,
        Bool.true_eq_false, false_and, or_false, eq_comm (b := target)]
      constructor
      · rintro ⟨_, ⟨f, hf, rfl⟩, rfl⟩
        exact ⟨f, hf, rfl⟩
      · rintro ⟨f, hf, rfl⟩
        exact ⟨_, ⟨f, hf, rfl⟩, rfl⟩
  | false =>
      have hnone : ∀ f, m.field? name ≠ some f := fun f hf =>
        absurd (Model.hasField_iff.mpr ⟨f, hf⟩) (by simp [hfield])
      simp [bind_eq_ok_iff, hnone, eq_comm (b := target)]

theorem orderingOf_eq_ok_iff {aggregates : List Aggregation} {s : SortKey} {o : Ordering} :
    orderingOf m aggregates s = .ok o ↔
      Direction.ofName? s.direction = some o.direction ∧
        sortTargetOf m aggregates s.field = .ok o.target := by
  simp only [orderingOf, bind_eq_ok_iff, require_eq_ok_iff, pure_eq_ok, Except.ok.injEq]
  constructor
  · rintro ⟨direction, hdirection, target, htarget, rfl⟩
    exact ⟨hdirection, htarget⟩
  · rintro ⟨hdirection, htarget⟩
    exact ⟨_, hdirection, _, htarget, rfl⟩

/-- **An accepted sort resolves**, to a field of the model or else to the aggregate of its
label. -/
theorem exists_orderingOf {aggregates : List Aggregation} {s : SortKey}
    (htarget : m.hasField s.field = true ∨ s.field ∈ aggregates.map (·.label))
    (hdirection : ∃ direction, Direction.ofName? s.direction = some direction) :
    ∃ o, orderingOf m aggregates s = .ok o := by
  obtain ⟨direction, hdirection⟩ := hdirection
  have hresolved : ∃ target, sortTargetOf m aggregates s.field = .ok target := by
    unfold sortTargetOf
    by_cases hfield : m.hasField s.field = true
    · obtain ⟨f, hf⟩ := Model.hasField_iff.mp hfield
      have hcolumn : columnOf m s.field = .ok f.column := columnOf_eq_ok_iff.mpr ⟨f, hf, rfl⟩
      exact ⟨.column f.column, by rw [if_pos hfield, hcolumn]; rfl⟩
    · obtain ⟨a, ha, hlabel⟩ := List.mem_map.mp (htarget.resolve_left hfield)
      cases hfind : aggregates.find? (·.label = s.field) with
      | some b => exact ⟨.aggregate b, by rw [if_neg hfield]; rfl⟩
      | none => exact absurd hlabel (by simpa using List.find?_eq_none.mp hfind a ha)
  obtain ⟨target, htarget⟩ := hresolved
  exact ⟨⟨target, direction⟩, by rw [orderingOf, hdirection, htarget]; rfl⟩

/-! ## The whole query -/

/-- **A query has a plan exactly when its sections resolve one by one** against the model that
it names, and the plan consists of what they resolve to. -/
theorem ofQuery_eq_ok_iff {registry : Registry} {query : Query} {plan : Plan} :
    ofQuery registry query = .ok plan ↔
      ∃ m, registry.model? query.model = some m ∧ rootOf m = .ok plan.root ∧
        query.fields.mapM (selectionOf m) = .ok plan.select ∧
        optional (conditionOf m) query.filters = .ok plan.filters ∧
        query.groupBy.mapM (columnOf m) = .ok plan.groupBy ∧
        query.aggregates.mapM (aggregationOf m) = .ok plan.aggregates ∧
        query.sort.mapM (orderingOf m plan.aggregates) = .ok plan.sort ∧
        plan.pagination = query.pagination.getD defaultPagination := by
  simp only [ofQuery, bind_eq_ok_iff, require_eq_ok_iff, pure_eq_ok, Except.ok.injEq]
  constructor
  · rintro ⟨m, hm, root, hroot, select, hselect, filters, hfilters, groupBy, hgroupBy, aggregates,
      haggregates, sort, hsort, rfl⟩
    exact ⟨m, hm, hroot, hselect, hfilters, hgroupBy, haggregates, hsort, rfl⟩
  · rintro ⟨m, hm, hroot, hselect, hfilters, hgroupBy, haggregates, hsort, hpagination⟩
    exact ⟨m, hm, _, hroot, _, hselect, _, hfilters, _, hgroupBy, _, haggregates, _, hsort,
      hpagination ▸ rfl⟩

/-- No plan of a query has an aggregate that lacks a column where it needs one. -/
theorem emittable_of_mem_aggregates {registry : Registry} {query : Query} {plan : Plan}
    (h : ofQuery registry query = .ok plan) : ∀ b ∈ plan.aggregates, b.Emittable := by
  obtain ⟨m, -, -, -, -, -, haggregates, -⟩ := ofQuery_eq_ok_iff.mp h
  intro b hb
  obtain ⟨a, -, ha⟩ := exists_of_mem_mapM haggregates hb
  exact (aggregationOf_spec ha).2

/-- **An accepted query has a plan, and the plan has no defect.** -/
theorem exists_ofQuery {registry : Registry} {query : Query}
    (h : query.validate registry = .ok ()) :
    ∃ plan, ofQuery registry query = .ok plan ∧ (∀ a ∈ plan.aggregates, a.Emittable) ∧
      ∀ f ∈ plan.filters, f.Emittable := by
  obtain ⟨-, m, hm, hfields, hfilters, hgroups, haggregates, hsort, -⟩ := validate_eq_ok_iff.mp h
  rw [Validation.checkAll_eq_ok_iff] at hfields hgroups
  rw [Validation.checkOption_eq_ok_iff] at hfilters
  rw [Validation.checkAggregates_eq_ok_iff] at haggregates
  rw [Validation.checkEach_eq_ok_iff] at hsort
  obtain ⟨root, hroot⟩ := exists_rootOf m
  obtain ⟨select, hselect⟩ : ∃ select, query.fields.mapM (selectionOf m) = .ok select :=
    exists_mapM_eq_ok_iff.mpr fun name mem =>
      exists_selectionOf (Validation.checkField_eq_ok_iff.mp (hfields name mem))
  obtain ⟨filters, hcondition, hemit⟩ := exists_optional (f := conditionOf m) (x := query.filters)
    fun filter mem =>
      have hok := Validation.checkFilter_eq_ok_iff.mp (hfilters filter mem)
      exists_conditionOf hok.1 hok.2
  obtain ⟨groupBy, hgroupBy⟩ : ∃ groupBy, query.groupBy.mapM (columnOf m) = .ok groupBy :=
    exists_mapM_eq_ok_iff.mpr fun name mem =>
      have ⟨f, hf, _⟩ := Validation.checkGroup_eq_ok_iff.mp (hgroups name mem)
      ⟨f.column, columnOf_eq_ok_iff.mpr ⟨f, hf, rfl⟩⟩
  obtain ⟨aggregates, haggregated⟩ :
      ∃ aggregates, query.aggregates.mapM (aggregationOf m) = .ok aggregates :=
    exists_mapM_eq_ok_iff.mpr fun a mem => exists_aggregationOf (haggregates.1 a mem).2
  have hlabels : aggregates.map (·.label) = query.aggregates.map (·.label) :=
    map_eq_of_mapM haggregated fun _ _ hb => (aggregationOf_spec hb).1
  obtain ⟨sort, hsorted⟩ : ∃ sort, query.sort.mapM (orderingOf m aggregates) = .ok sort := by
    refine exists_mapM_eq_ok_iff.mpr fun s mem => ?_
    obtain ⟨k, hk, rfl⟩ := List.getElem_of_mem mem
    obtain ⟨-, htarget, hdirection⟩ := Validation.checkSort_eq_ok_iff.mp (hsort k hk)
    exact exists_orderingOf (hlabels ▸ htarget) hdirection
  have hplan : ofQuery registry query = .ok ⟨root, select, filters, groupBy, aggregates, sort,
      query.pagination.getD defaultPagination⟩ :=
    ofQuery_eq_ok_iff.mpr
      ⟨m, hm, hroot, hselect, hcondition, hgroupBy, haggregated, hsorted, rfl⟩
  exact ⟨_, hplan, emittable_of_mem_aggregates hplan, hemit⟩

end Plan

end SchemaQuery
