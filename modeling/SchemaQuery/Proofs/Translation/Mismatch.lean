import SchemaQuery.Proofs.Query.WellFormed
import SchemaQuery.Proofs.Translation.Extension
import SchemaQuery.Proofs.Translation.Names

/-!
# Planning against another schema

A query that one registry accepts may be planned against another one: the schema was replaced
in between.  What validation has found out about operators, functions, directions and values
holds against any schema, since none of it is looked up.  What is left to planning are names,
and so the only way to fail is a name that is not there.

The names of a query are laid out in one list, in the order in which planning looks them up.
Every clause fails as the first of its names that does not resolve, and so does the whole
(`Plan.failure?_ofQuery`).  What a name resolves to may well differ: a sort that was by an
aggregate is by a column if the other model has a field of that name.

## Main definitions

* `Query.Shaped` - what of an accepted query does not depend on the schema.
* `Mention`, `Query.mentions` - the names that planning looks up.
* `Plan.columns` - the columns of a plan, wherever they stand.

## Main statements

* `Query.shaped_of_validate` - accepted queries are shaped.
* `Plan.failure?_ofQuery` - the error of planning, name by name.
* `planned_elsewhere` - **a query that was accepted elsewhere is planned exactly when its names
  resolve, and else the first that does not is reported.**
-/

namespace SchemaQuery

open Outcome

/-! ## What does not depend on the schema -/

/-- Operators, functions and directions are what they name, values suit their operators,
filters have comparisons, and only a count names no field. -/
structure Query.Shaped (q : Query) : Prop where
  nonempty : ∀ filter ∈ q.filters, filter.comparisons ≠ []
  comparisons : ∀ filter ∈ q.filters, ∀ c ∈ filter.comparisons,
    ∃ op, Operator.ofName? c.op = some op ∧ op.Admits c.value
  aggregates : ∀ a ∈ q.aggregates, ∃ function,
    AggregateFunction.ofName? a.function = some function ∧ (a.field? = none → function = .count)
  sort : ∀ s ∈ q.sort, ∃ direction, Direction.ofName? s.direction = some direction

/-- **A query that some registry accepts is shaped.** -/
theorem Query.shaped_of_validate {registry : Registry} {q : Query}
    (h : q.validate registry = .ok ()) : q.Shaped := by
  obtain ⟨-, m, -, -, hfilters, -, haggregates, hsort, -⟩ := validate_eq_ok_iff.mp h
  rw [Validation.checkOption_eq_ok_iff] at hfilters
  obtain ⟨happlicable, -⟩ := Validation.checkAggregates_eq_ok_iff.mp haggregates
  rw [Validation.checkEach_eq_ok_iff] at hsort
  refine ⟨?_, ?_, ?_, ?_⟩
  · intro filter hfilter
    exact (Validation.checkFilter_eq_ok_iff.mp (hfilters filter hfilter)).1
  · intro filter hfilter c hc
    obtain ⟨f, op, hadmissible⟩ :=
      (Validation.checkFilter_eq_ok_iff.mp (hfilters filter hfilter)).2 c hc
    exact ⟨op, hadmissible.operator, hadmissible.value⟩
  · intro a ha
    obtain ⟨function, hfunction, htarget⟩ := (happlicable a ha).2
    refine ⟨function, hfunction, fun hnone => ?_⟩
    rw [hnone] at htarget
    exact htarget
  · intro s hs
    obtain ⟨k, hk, rfl⟩ := List.getElem_of_mem hs
    exact (Validation.checkSort_eq_ok_iff.mp (hsort k hk)).2.2

/-! ## The names that planning looks up -/

/-- A name in a query: that of a field, or what rows are sorted by, which may be a label
instead. -/
inductive Mention where
  | field (name : String)
  | sort (name : String)

/-- The name itself. -/
def Mention.name : Mention → String
  | field name | sort name => name

/-- A name resolves if the model has a field of that name, or, in a sort, if it is one of the
given labels. -/
def Mention.ResolvesIn (m : Model) (labels : List String) : Mention → Prop
  | field name => ∃ f ∈ m.fields.entries, f.key = name
  | sort name => (∃ f ∈ m.fields.entries, f.key = name) ∨ name ∈ labels

@[simp] theorem Mention.resolvesIn_field {m : Model} {labels : List String} {name : String} :
    (field name).ResolvesIn m labels ↔ ∃ f ∈ m.fields.entries, f.key = name := Iff.rfl

@[simp] theorem Mention.resolvesIn_sort {m : Model} {labels : List String} {name : String} :
    (sort name).ResolvesIn m labels ↔ (∃ f ∈ m.fields.entries, f.key = name) ∨ name ∈ labels :=
  Iff.rfl

instance (m : Model) (labels : List String) :
    (mention : Mention) → Decidable (mention.ResolvesIn m labels)
  | .field _ => inferInstanceAs (Decidable (∃ f ∈ _, _))
  | .sort _ => inferInstanceAs (Decidable ((∃ f ∈ _, _) ∨ _))

namespace Query

/-- The labels of the aggregates. -/
def labels (q : Query) : List String := q.aggregates.map (·.label)

/-- **The names of a query in the order in which planning looks them up**: the projection, the
filter from left to right, the grouping, the aggregates and the sorts. -/
def mentions (q : Query) : List Mention :=
  q.fields.map .field
    ++ (q.filters.toList.flatMap Filter.comparisons).map (.field ·.field)
    ++ q.groupBy.map .field
    ++ (q.aggregates.filterMap Aggregate.field?).map .field
    ++ q.sort.map (.sort ·.field)

end Query

namespace Plan

/-- The error for a name that does not resolve. -/
def unresolved? (m : Model) (labels : List String) (mention : Mention) : Option PlanError :=
  if mention.ResolvesIn m labels then none else some (.unknownField m.key mention.name)

variable {m : Model} {labels : List String}

theorem unresolved?_eq_none_iff {mention : Mention} :
    unresolved? m labels mention = none ↔ mention.ResolvesIn m labels := by
  simp [unresolved?]

theorem unresolved?_eq_some_iff {mention : Mention} {e : PlanError} :
    unresolved? m labels mention = some e ↔
      ¬ mention.ResolvesIn m labels ∧ e = .unknownField m.key mention.name := by
  simp [unresolved?, eq_comm (b := e)]

/-! ## The clauses -/

theorem failure?_columnOf (labels : List String) (name : String) :
    failure? (columnOf m name) = unresolved? m labels (.field name) := by
  have hresolves : (Mention.field name).ResolvesIn m labels ↔ ∃ f, m.field? name = some f := by
    simp only [Mention.resolvesIn_field, Model.field?_eq_some_iff]
  rw [columnOf, failure?_map, unresolved?]
  cases hf : m.field? name with
  | none => rw [if_neg (by simp [hresolves, hf])]; rfl
  | some f => rw [if_pos (hresolves.mpr ⟨f, hf⟩)]; rfl

theorem failure?_selectionOf (name : String) :
    failure? (selectionOf m name) = unresolved? m labels (.field name) := by
  rw [selectionOf, failure?_map, failure?_columnOf labels]

/-- A comparison whose operator is known fails as its field. -/
theorem failure?_comparisonOf {c : Comparison} {op : Operator}
    (hop : Operator.ofName? c.op = some op) :
    failure? (comparisonOf m c) = unresolved? m labels (.field c.field) := by
  simp only [comparisonOf, hop, require, ok_bind, failure?_map, failure?_columnOf labels]

/-- A filter fails as its comparisons. -/
theorem failure?_conditionOf {filter : Filter}
    (h : ∀ c ∈ filter.comparisons, ∃ op, Operator.ofName? c.op = some op ∧ op.Admits c.value) :
    failure? (conditionOf m filter) =
      filter.comparisons.findSome? fun c => unresolved? m labels (.field c.field) := by
  have heach : ∀ c ∈ filter.comparisons,
      failure? (comparisonOf m c) = unresolved? m labels (.field c.field) := by
    intro c hc
    obtain ⟨op, hop, -⟩ := h c hc
    exact failure?_comparisonOf hop
  cases filter with
  | comparison c =>
      rw [conditionOf, heach c List.mem_cons_self, Filter.comparisons, List.findSome?_singleton]
  | and branches | or branches =>
      rw [conditionOf, failure?_map]
      exact failure?_mapM heach
  | not c =>
      rw [conditionOf, failure?_map, heach c List.mem_cons_self, Filter.comparisons,
        List.findSome?_singleton]

/-- An aggregate whose function is known fails as the field that it names, if it names one. -/
theorem failure?_aggregationOf {a : Aggregate} {function : AggregateFunction}
    (hfunction : AggregateFunction.ofName? a.function = some function)
    (hcount : a.field? = none → function = .count) :
    failure? (aggregationOf m a)
      = a.field?.bind fun name => unresolved? m labels (.field name) := by
  rw [aggregationOf, hfunction]
  cases hfield : a.field? with
  | none => simp [hcount hfield, require, optional]
  | some name =>
      simp only [require, ok_bind, optional, Option.bind_some, ← failure?_columnOf labels]
      cases columnOf m name <;> simp

/-- A target is found among the fields or among the labels. -/
theorem failure?_sortTargetOf {aggregates : List Aggregation}
    (hlabels : aggregates.map (·.label) = labels) (name : String) :
    failure? (sortTargetOf m aggregates name) = unresolved? m labels (.sort name) := by
  subst hlabels
  unfold sortTargetOf
  by_cases hfield : ∃ f ∈ m.fields.entries, f.key = name
  · rw [if_pos (Model.hasField_iff_exists.mpr hfield), failure?_map,
      failure?_columnOf [],
      unresolved?_eq_none_iff.mpr (Mention.resolvesIn_field.mpr hfield)]
    exact (unresolved?_eq_none_iff.mpr (Mention.resolvesIn_sort.mpr (.inl hfield))).symm
  · rw [if_neg fun h => hfield (Model.hasField_iff_exists.mp h), failure?_map]
    cases hfind : aggregates.find? (·.label = name) with
    | none =>
        have hlabel : name ∉ aggregates.map (·.label) := by
          simpa using List.find?_eq_none.mp hfind
        have hmissing : ¬ (Mention.sort name).ResolvesIn m (aggregates.map (·.label)) :=
          fun h => (Mention.resolvesIn_sort.mp h).elim hfield hlabel
        exact (unresolved?_eq_some_iff.mpr ⟨hmissing, rfl⟩).symm
    | some a =>
        have hlabel : name ∈ aggregates.map (·.label) :=
          List.mem_map.mpr
            ⟨a, List.mem_of_find?_eq_some hfind, by simpa using List.find?_some hfind⟩
        exact (unresolved?_eq_none_iff.mpr (Mention.resolvesIn_sort.mpr (.inr hlabel))).symm

theorem failure?_orderingOf {aggregates : List Aggregation} {s : SortKey} {direction : Direction}
    (hdirection : Direction.ofName? s.direction = some direction)
    (hlabels : aggregates.map (·.label) = labels) :
    failure? (orderingOf m aggregates s) = unresolved? m labels (.sort s.field) := by
  simp only [orderingOf, hdirection, require, ok_bind, failure?_map, failure?_sortTargetOf hlabels]

/-! ## The whole query -/

/-- **Planning fails as the first name of the query that does not resolve**, if the registry
has the model at all. -/
theorem failure?_ofQuery {registry : Registry} {q : Query} (hq : q.Shaped)
    (hm : registry.model? q.model = some m) :
    failure? (ofQuery registry q) = q.mentions.findSome? (unresolved? m q.labels) := by
  obtain ⟨root, hroot⟩ := exists_rootOf m
  have hselect : failure? (q.fields.mapM (selectionOf m))
      = (q.fields.map .field).findSome? (unresolved? m q.labels) := by
    rw [failure?_mapM fun name _ => failure?_selectionOf name, List.findSome?_map]
    rfl
  have hfilters : failure? (optional (conditionOf m) q.filters)
      = ((q.filters.toList.flatMap Filter.comparisons).map (.field ·.field)).findSome?
          (unresolved? m q.labels) := by
    cases hfilter : q.filters with
    | none => rfl
    | some filter =>
        rw [optional, failure?_map, failure?_conditionOf (hq.comparisons filter hfilter),
          Option.toList_some, List.flatMap_singleton, List.findSome?_map]
        rfl
  have hgroupBy : failure? (q.groupBy.mapM (columnOf m))
      = (q.groupBy.map .field).findSome? (unresolved? m q.labels) := by
    rw [failure?_mapM fun name _ => failure?_columnOf q.labels name, List.findSome?_map]
    rfl
  have haggregates : failure? (q.aggregates.mapM (aggregationOf m))
      = ((q.aggregates.filterMap Aggregate.field?).map .field).findSome?
          (unresolved? m q.labels) := by
    have heach : ∀ a ∈ q.aggregates, failure? (aggregationOf m a)
        = a.field?.bind fun name => unresolved? m q.labels (.field name) := by
      intro a ha
      obtain ⟨function, hfunction, hcount⟩ := hq.aggregates a ha
      exact failure?_aggregationOf hfunction hcount
    rw [failure?_mapM heach, List.findSome?_map, ← List.head?_filterMap, ← List.head?_filterMap,
      List.filterMap_filterMap]
    rfl
  have hsort {aggregates : List Aggregation}
      (h : q.aggregates.mapM (aggregationOf m) = .ok aggregates) :
      failure? (q.sort.mapM (orderingOf m aggregates))
        = (q.sort.map (.sort ·.field)).findSome? (unresolved? m q.labels) := by
    have hlabels : aggregates.map (·.label) = q.labels :=
      map_eq_of_mapM h fun _ _ hb => (aggregationOf_spec hb).1
    have heach : ∀ s ∈ q.sort, failure? (orderingOf m aggregates s)
        = unresolved? m q.labels (.sort s.field) := by
      intro s hs
      obtain ⟨direction, hdirection⟩ := hq.sort s hs
      exact failure?_orderingOf hdirection hlabels
    rw [failure?_mapM heach, List.findSome?_map]
    rfl
  rw [Query.mentions]
  simp only [List.findSome?_append, ← hselect, ← hfilters, ← hgroupBy, ← haggregates]
  simp only [ofQuery, hm, require, hroot, ok_bind]
  rw [failure?_bind fun select _ => failure?_bind fun filters _ => failure?_bind fun groupBy _ =>
    failure?_bind fun aggregates h => failure?_map.trans (hsort h)]
  simp only [Option.or_assoc]

/-! ## What the plan is then -/

/-- The column of a field of the model, with its type. -/
def Column.DeclaredIn (m : Model) (c : Column) : Prop := ∃ f ∈ m.fields.entries, c = f.column

/-- The column that rows are sorted by; a count of rows has none. -/
def SortTarget.column? : SortTarget → Option Column
  | .column c => some c
  | .aggregate a => a.column

/-- **The columns of a plan, wherever they stand**: the primary key and those of every
clause. -/
def columns (plan : Plan) : List Column :=
  plan.root.primaryKey :: plan.select.map (·.column)
    ++ plan.leaves.map (·.column)
    ++ plan.groupBy
    ++ plan.aggregates.filterMap (·.column)
    ++ plan.sort.filterMap (·.target.column?)

theorem declaredIn_of_columnOf {name : String} {c : Column} (h : columnOf m name = .ok c) :
    c.DeclaredIn m := by
  obtain ⟨f, hf, rfl⟩ := columnOf_eq_ok_iff.mp h
  exact ⟨f, (Model.field?_eq_some_iff.mp hf).1, rfl⟩

theorem declaredIn_of_conditionOf {filter : Filter} {g : Condition}
    (h : conditionOf m filter = .ok g) : ∀ leaf ∈ g.leaves, leaf.column.DeclaredIn m := by
  obtain ⟨nodes, hnodes, hsame⟩ := leaves_of_conditionOf h
  intro leaf hleaf
  rw [hsame] at hleaf
  obtain ⟨node, hnode, hleaf⟩ := Condition.mem_leavesOf.mp hleaf
  obtain ⟨c, -, hc⟩ := exists_of_mem_mapM hnodes hnode
  obtain ⟨f, op, hf, -, rfl⟩ := comparisonOf_eq_ok_iff.mp hc
  obtain rfl := List.mem_singleton.mp hleaf
  exact ⟨f, (Model.field?_eq_some_iff.mp hf).1, rfl⟩

theorem declaredIn_of_aggregationOf {a : Aggregate} {b : Aggregation}
    (h : aggregationOf m a = .ok b) : ∀ c ∈ b.column, c.DeclaredIn m := by
  obtain ⟨-, hcolumn, -, -⟩ := aggregationOf_eq_ok_iff.mp h
  intro c hc
  rcases optional_eq_ok_iff.mp hcolumn with ⟨-, hnone⟩ | ⟨name, c', -, hc', hsome⟩
  · cases hnone.symm.trans hc
  · obtain rfl := Option.some.inj (hsome.symm.trans hc)
    exact declaredIn_of_columnOf hc'

/-- **Every column of a plan is that of a field of the model that it was planned against.** -/
theorem declaredIn_of_ofQuery {registry : Registry} {q : Query} {plan : Plan}
    (hm : registry.model? q.model = some m) (h : ofQuery registry q = .ok plan) :
    ∀ c ∈ plan.columns, c.DeclaredIn m := by
  obtain ⟨m', hm', hroot, hselect, hfilters, hgroupBy, haggregates, hsort, -⟩ :=
    ofQuery_eq_ok_iff.mp h
  obtain rfl : m = m' := Option.some.inj (hm.symm.trans hm')
  have hkey : plan.root.primaryKey.DeclaredIn m := by
    obtain ⟨f, hf, hroot⟩ := rootOf_eq_ok_iff.mp hroot
    exact ⟨f, (Model.field?_eq_some_iff.mp hf).1, by rw [hroot]⟩
  have hselect : ∀ s ∈ plan.select, s.column.DeclaredIn m := by
    intro s hs
    obtain ⟨name, -, hs⟩ := exists_of_mem_mapM hselect hs
    obtain ⟨f, hf, rfl⟩ := selectionOf_eq_ok_iff.mp hs
    exact ⟨f, (Model.field?_eq_some_iff.mp hf).1, rfl⟩
  have hleaves : ∀ leaf ∈ plan.leaves, leaf.column.DeclaredIn m := by
    intro leaf hleaf
    rcases optional_eq_ok_iff.mp hfilters with ⟨-, hnone⟩ | ⟨filter, g, -, hg, hsome⟩
    · rw [leaves, hnone] at hleaf
      cases hleaf
    · rw [leaves, hsome] at hleaf
      exact declaredIn_of_conditionOf hg leaf hleaf
  have hgroupBy : ∀ c ∈ plan.groupBy, c.DeclaredIn m := by
    intro c hc
    obtain ⟨name, -, hc⟩ := exists_of_mem_mapM hgroupBy hc
    exact declaredIn_of_columnOf hc
  have haggregates : ∀ b ∈ plan.aggregates, ∀ c ∈ b.column, c.DeclaredIn m := by
    intro b hb
    obtain ⟨a, -, hb⟩ := exists_of_mem_mapM haggregates hb
    exact declaredIn_of_aggregationOf hb
  have hsort : ∀ o ∈ plan.sort, ∀ c ∈ o.target.column?, c.DeclaredIn m := by
    intro o ho
    obtain ⟨s, -, ho⟩ := exists_of_mem_mapM hsort ho
    obtain ⟨-, htarget⟩ := orderingOf_eq_ok_iff.mp ho
    rcases sortTargetOf_eq_ok_iff.mp htarget with ⟨f, hf, htarget⟩ | ⟨-, b, hb, htarget⟩
    · rw [htarget]
      rintro c ⟨⟩
      exact ⟨f, (Model.field?_eq_some_iff.mp hf).1, rfl⟩
    · rw [htarget]
      exact haggregates b (List.mem_of_find?_eq_some hb)
  simp only [columns, List.forall_mem_append, List.forall_mem_cons, List.forall_mem_map,
    List.forall_mem_filterMap]
  exact ⟨⟨⟨⟨⟨hkey, hselect⟩, hleaves⟩, hgroupBy⟩, haggregates⟩, hsort⟩

/-- **A plan of a shaped query is emitted**, whatever it was planned against. -/
theorem exists_emit_of_ofQuery {registry : Registry} {q : Query} {plan : Plan} (hq : q.Shaped)
    (h : ofQuery registry q = .ok plan) : ∃ emitted, Sql.emit plan = .ok emitted := by
  obtain ⟨m, -, -, -, hfilters, -⟩ := ofQuery_eq_ok_iff.mp h
  have hcondition : ∀ g ∈ plan.filters, g.Emittable := by
    intro g hg
    rcases optional_eq_ok_iff.mp hfilters with ⟨-, hnone⟩ | ⟨filter, g', hfilter, hg', hsome⟩
    · cases hnone.symm.trans hg
    · obtain rfl : g' = g := Option.some.inj (hsome.symm.trans hg)
      exact emittable_of_conditionOf (hq.nonempty filter hfilter) (hq.comparisons filter hfilter)
        hg'
  exact Sql.exists_emit_iff.mpr ⟨emittable_of_mem_aggregates h, hcondition⟩

end Plan

/-! ## Accepted by one registry and planned against another -/

/-- The name is one of the query that does not resolve in the model, and all that are looked up
before it do. -/
def Query.FirstUnresolved (q : Query) (m : Model) (n : Mention) : Prop :=
  ∃ before after, q.mentions = before ++ n :: after ∧
    (∀ earlier ∈ before, earlier.ResolvesIn m q.labels) ∧ ¬ n.ResolvesIn m q.labels

theorem Plan.ofQuery_of_no_model {registry : Registry} {q : Query}
    (h : registry.model? q.model = none) : ofQuery registry q = .error (.unknownModel q.model) := by
  rw [ofQuery, h]
  rfl

/-- **A shaped query has a plan exactly when all of its names resolve.** -/
theorem Plan.exists_ofQuery_iff {registry : Registry} {q : Query} {m : Model} (hq : q.Shaped)
    (hm : registry.model? q.model = some m) :
    (∃ plan, ofQuery registry q = .ok plan) ↔ ∀ n ∈ q.mentions, n.ResolvesIn m q.labels := by
  rw [← failure?_eq_none_iff, failure?_ofQuery hq hm, List.findSome?_eq_none_iff]
  simp only [unresolved?_eq_none_iff]

/-- **If it has none, the first name that does not resolve is reported.** -/
theorem Plan.ofQuery_eq_error_iff {registry : Registry} {q : Query} {m : Model} {e : PlanError}
    (hq : q.Shaped) (hm : registry.model? q.model = some m) :
    ofQuery registry q = .error e ↔
      ∃ n, q.FirstUnresolved m n ∧ e = .unknownField m.key n.name := by
  rw [← failure?_eq_some_iff, failure?_ofQuery hq hm, List.findSome?_eq_some_iff]
  simp only [unresolved?_eq_none_iff, unresolved?_eq_some_iff, Query.FirstUnresolved]
  constructor
  · rintro ⟨before, n, after, hmentions, ⟨hmissing, rfl⟩, hbefore⟩
    exact ⟨n, ⟨before, after, hmentions, hbefore, hmissing⟩, rfl⟩
  · rintro ⟨n, ⟨before, after, hmentions, hbefore, hmissing⟩, rfl⟩
    exact ⟨before, n, after, hmentions, ⟨hmissing, rfl⟩, hbefore⟩

/-- **A query that one registry accepts is planned against another exactly when its names
resolve there.**  Else the model is reported, or the first name that does not resolve.  A plan
refers to nothing but fields of the other model, as they are declared there, and it is
emitted. -/
theorem planned_elsewhere {a b : Registry} {q : Query} (accepted : q.validate a = .ok ()) :
    ((∃ plan, Plan.ofQuery b q = .ok plan) ↔
        ∃ m ∈ b.models.entries, m.key = q.model ∧
          ∀ n ∈ q.mentions, n.ResolvesIn m q.labels) ∧
      (∀ e, Plan.ofQuery b q = .error e →
        (e = .unknownModel q.model ∧ ∀ m ∈ b.models.entries, m.key ≠ q.model) ∨
          ∃ m ∈ b.models.entries, m.key = q.model ∧
            ∃ n, q.FirstUnresolved m n ∧ e = .unknownField q.model n.name) ∧
      ∀ plan, Plan.ofQuery b q = .ok plan →
        (∃ m ∈ b.models.entries, m.key = q.model ∧ ∀ c ∈ plan.columns, c.DeclaredIn m) ∧
          ∃ emitted, Sql.emit plan = .ok emitted := by
  have hq := Query.shaped_of_validate accepted
  cases hmodel : b.model? q.model with
  | none =>
      have hmissing : ∀ m ∈ b.models.entries, m.key ≠ q.model := by
        intro m hm hkey
        cases hmodel.symm.trans (Registry.model?_eq_some_iff.mpr ⟨hm, hkey⟩)
      rw [Plan.ofQuery_of_no_model hmodel]
      refine ⟨⟨?_, ?_⟩, ?_, ?_⟩
      · rintro ⟨plan, hplan⟩
        cases hplan
      · rintro ⟨m, hm, hkey, -⟩
        exact absurd hkey (hmissing m hm)
      · rintro e ⟨⟩
        exact .inl ⟨rfl, hmissing⟩
      · rintro plan ⟨⟩
  | some m =>
      obtain ⟨hm, hkey⟩ := Registry.model?_eq_some_iff.mp hmodel
      refine ⟨⟨?_, ?_⟩, ?_, ?_⟩
      · intro hplan
        exact ⟨m, hm, hkey, (Plan.exists_ofQuery_iff hq hmodel).mp hplan⟩
      · rintro ⟨m', hm', hkey', hresolve⟩
        obtain rfl : m = m' :=
          Option.some.inj (hmodel.symm.trans (Registry.model?_eq_some_iff.mpr ⟨hm', hkey'⟩))
        exact (Plan.exists_ofQuery_iff hq hmodel).mpr hresolve
      · intro e he
        obtain ⟨n, hn, rfl⟩ := (Plan.ofQuery_eq_error_iff hq hmodel).mp he
        exact .inr ⟨m, hm, hkey, n, hn, by rw [hkey]⟩
      · intro plan hplan
        exact ⟨⟨m, hm, hkey, Plan.declaredIn_of_ofQuery hmodel hplan⟩,
          Plan.exists_emit_of_ofQuery hq hplan⟩

namespace Orders

/-- The orders without their amounts. -/
def unpricedModel : Model where
  name := model.name
  table := model.table
  primaryKey := "status"
  fields := ⟨model.fields.entries.filter (·.key ≠ "amount"), by decide⟩
  primaryKey_declared := by decide

/-- The registry of the orders without their amounts. -/
def unpricedRegistry : Registry := ⟨⟨[unpricedModel], by decide⟩, by decide⟩

end Orders

/-- The orders of a month are planned against the grown schema, where their count is a column.
Against orders without amounts planning stops at the comparison of the amount. -/
theorem planned_elsewhere_orders :
    (∃ plan, Plan.ofQuery Orders.grownRegistry
        (Orders.query "paid" (Sql.textRange "a" "b") none) = .ok plan ∧
      ∃ emitted, Sql.emit plan = .ok emitted) ∧
      Plan.ofQuery Orders.unpricedRegistry (Orders.query "paid" (Sql.textRange "a" "b") none) =
        .error (.unknownField "orders" "amount") ∧
      ∃ n, n.name = "amount" ∧ (Orders.query "paid" (Sql.textRange "a" "b") none).FirstUnresolved
        Orders.unpricedModel n := by
  have haccepted :
      (Orders.query "paid" (Sql.textRange "a" "b") none).validate Orders.registry = .ok () := by
    decide
  obtain ⟨hplanned, -, hemitted⟩ := planned_elsewhere (b := Orders.grownRegistry) haccepted
  obtain ⟨-, hrefused, -⟩ := planned_elsewhere (b := Orders.unpricedRegistry) haccepted
  have herror : Plan.ofQuery Orders.unpricedRegistry
      (Orders.query "paid" (Sql.textRange "a" "b") none) =
        .error (.unknownField "orders" "amount") := by
    rfl
  refine ⟨?_, herror, ?_⟩
  · obtain ⟨plan, hplan⟩ :=
      hplanned.mpr ⟨Orders.grownModel, .tail _ (.head _), rfl, by decide⟩
    exact ⟨plan, hplan, (hemitted plan hplan).2⟩
  · rcases hrefused _ herror with ⟨hmodel, -⟩ | ⟨m, hm, -, n, hn, hname⟩
    · cases hmodel
    · obtain rfl : m = Orders.unpricedModel := List.mem_singleton.mp hm
      injection hname with _ hname
      exact ⟨n, hname.symm, hn⟩

end SchemaQuery
