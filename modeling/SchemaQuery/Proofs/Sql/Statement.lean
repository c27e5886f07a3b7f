import SchemaQuery.Proofs.Sql.Emission

/-!
# What emission does to a plan

A plan becomes a statement clause by clause, and only two clauses can fail: the aggregates and
the filter.  Here the successful statement is written down once (`statement`), so that what
follows speaks about its clauses and not about the steps that made it.

## Main statements

* `ofPlan_eq_ok_iff` - when a plan has a statement, and which.
* `emit_eq_ok_iff` - the same for its text and parameters.
* `exists_emit_iff` - a plan is emitted exactly when it has no defect.
* `sql_eq_render_shape` - the text is that of a statement in which no value stands.
* `params_eq` - the parameters are the values of the filter, then the limit and the offset.
-/

namespace SchemaQuery

open Json (Value)

/-- Only a count may do without a column. -/
def Plan.Aggregation.Emittable (a : Plan.Aggregation) : Prop :=
  a.column = none → a.function = .count

namespace Sql

open Outcome

/-- The select list of a plan whose aggregates can be emitted. -/
def outputs (plan : Plan) : List Output :=
  (if plan.select = [] then plan.groupBy.map fun c => .column c none
    else plan.select.map Output.ofSelection)
    ++ plan.aggregates.map fun a => .aggregate a.function a.column a.label

/-- The order list of a plan. -/
def orderKeys (plan : Plan) : List (SortKey × Direction) :=
  plan.sort.map fun s => (SortKey.ofTarget s.target, s.direction)

/-- The statement of a plan with a given condition. -/
def statement (plan : Plan) (condition : Option (Condition Value)) : Statement Value where
  outputs := outputs plan
  table := plan.root.table
  tableAlias := plan.root.tableAlias
  condition := condition
  groupBy := plan.groupBy
  orderBy := orderKeys plan
  limit := .ofInt64 plan.pagination.limit
  offset := .ofInt64 plan.pagination.offset

theorem ofAggregation_eq_ok_iff {a : Plan.Aggregation} {o : Output} :
    Output.ofAggregation a = .ok o ↔ a.Emittable ∧ o = .aggregate a.function a.column a.label := by
  unfold Output.ofAggregation Plan.Aggregation.Emittable
  split <;> simp_all [eq_comm (b := o)]

theorem outputsOf_eq_ok_iff {plan : Plan} {os : List Output} :
    outputsOf plan = .ok os ↔ (∀ a ∈ plan.aggregates, a.Emittable) ∧ os = outputs plan := by
  simp only [outputsOf, bind_eq_ok_iff, pure_eq_ok, Except.ok.injEq,
    mapM_guarded ofAggregation_eq_ok_iff]
  constructor
  · rintro ⟨_, ⟨hemit, rfl⟩, rfl⟩
    exact ⟨hemit, rfl⟩
  · rintro ⟨hemit, rfl⟩
    exact ⟨_, ⟨hemit, rfl⟩, rfl⟩

/-- A condition that is absent is emitted as absent. -/
theorem conditionOf_eq_ok_iff {filter : Option Plan.Condition} {c : Option (Condition Value)} :
    conditionOf filter = .ok c ↔
      (filter = none ∧ c = none) ∨
        ∃ f d, filter = some f ∧ Condition.ofPlan f = .ok d ∧ c = some d := by
  cases filter with
  | none => simp [conditionOf, eq_comm (b := c)]
  | some f => simp [conditionOf, bind_eq_ok_iff, eq_comm (b := c)]

/-- **The statement of a plan.**  Only the aggregates and the filter can keep a plan from
having one. -/
theorem ofPlan_eq_ok_iff {plan : Plan} {s : Statement Value} :
    Statement.ofPlan plan = .ok s ↔
      (∀ a ∈ plan.aggregates, a.Emittable) ∧
        ∃ c, conditionOf plan.filters = .ok c ∧ s = statement plan c := by
  simp only [Statement.ofPlan, bind_eq_ok_iff, outputsOf_eq_ok_iff, pure_eq_ok, Except.ok.injEq]
  constructor
  · rintro ⟨_, ⟨hemit, rfl⟩, c, hc, rfl⟩
    exact ⟨hemit, c, hc, rfl⟩
  · rintro ⟨hemit, c, hc, rfl⟩
    exact ⟨_, ⟨hemit, rfl⟩, c, hc, rfl⟩

/-- **What is emitted for a plan** is the text and the values of its statement. -/
theorem emit_eq_ok_iff {plan : Plan} {e : Emitted} :
    emit plan = .ok e ↔
      (∀ a ∈ plan.aggregates, a.Emittable) ∧
        ∃ c, conditionOf plan.filters = .ok c ∧
          e = ⟨(statement plan c).render, (statement plan c).values⟩ := by
  simp only [emit, bind_eq_ok_iff, ofPlan_eq_ok_iff, pure_eq_ok, Except.ok.injEq]
  constructor
  · rintro ⟨_, ⟨hemit, c, hc, rfl⟩, rfl⟩
    exact ⟨hemit, c, hc, rfl⟩
  · rintro ⟨hemit, c, hc, rfl⟩
    exact ⟨_, ⟨hemit, c, hc, rfl⟩, rfl⟩

/-- **A plan is emitted exactly when it has no defect**: every aggregate without a column
counts rows, and no node of the filter is defective. -/
theorem exists_emit_iff {plan : Plan} :
    (∃ e, emit plan = .ok e) ↔
      (∀ a ∈ plan.aggregates, a.Emittable) ∧ ∀ f ∈ plan.filters, f.Emittable := by
  simp only [emit_eq_ok_iff, conditionOf_eq_ok_iff]
  cases hfilter : plan.filters with
  | none => simp
  | some f => simp [← Condition.exists_ofPlan_iff]

/-! ## The two halves of what is emitted -/

section Erasure

variable {α : Type}

/-- A statement without its values. -/
def Statement.erase (s : Statement α) : Statement Unit where
  outputs := s.outputs
  table := s.table
  tableAlias := s.tableAlias
  condition := s.condition.map Condition.erase
  groupBy := s.groupBy
  orderBy := s.orderBy
  limit := ()
  offset := ()

theorem Statement.length_conditionValues_erase (s : Statement α) :
    s.erase.conditionValues.length = s.conditionValues.length := by
  unfold Statement.conditionValues Statement.erase
  cases s.condition <;> simp

/-- A statement has as many values as its shape has places for them. -/
theorem Statement.length_values_erase (s : Statement α) :
    s.erase.values.length = s.values.length := by
  simp [Statement.values, s.length_conditionValues_erase]

/-- **The text of a statement depends on its shape alone.** -/
theorem Statement.render_erase (s : Statement α) : s.erase.render = s.render := by
  have hwhere : s.erase.whereClause = s.whereClause := by
    unfold Statement.whereClause Statement.erase
    cases s.condition <;> simp
  have hclauses : s.erase.clauses = s.clauses := by
    rw [Statement.clauses, Statement.clauses, hwhere, s.length_conditionValues_erase]
    rfl
  rw [Statement.render, Statement.render, hclauses]

end Erasure

/-- **The shape of a plan**: its statement without the values of the filter and without the
limit and the offset. -/
def shape (plan : Plan) : Statement Unit where
  outputs := outputs plan
  table := plan.root.table
  tableAlias := plan.root.tableAlias
  condition := plan.filters.map Plan.Condition.shape
  groupBy := plan.groupBy
  orderBy := orderKeys plan
  limit := ()
  offset := ()

/-- A statement of a plan has the shape of the plan. -/
theorem erase_statement {plan : Plan} {c : Option (Condition Value)}
    (hc : conditionOf plan.filters = .ok c) : (statement plan c).erase = shape plan := by
  have hcondition : c.map Condition.erase = plan.filters.map Plan.Condition.shape := by
    rcases conditionOf_eq_ok_iff.mp hc with ⟨hnone, rfl⟩ | ⟨f, d, hsome, hd, rfl⟩
    · rw [hnone]
      rfl
    · rw [hsome, Option.map_some, Option.map_some, Condition.erase_ofPlan hd]
  rw [Statement.erase, shape, ← hcondition]
  rfl

/-- The emitted text is that of the shape of the plan. -/
theorem sql_eq_render_shape {plan : Plan} {e : Emitted} (h : emit plan = .ok e) :
    e.sql = (shape plan).render := by
  obtain ⟨-, c, hc, rfl⟩ := emit_eq_ok_iff.mp h
  rw [← erase_statement hc, Statement.render_erase]

/-- There are as many parameters as the shape of the plan has places for values. -/
theorem length_params_eq {plan : Plan} {e : Emitted} (h : emit plan = .ok e) :
    e.params.length = (shape plan).values.length := by
  obtain ⟨-, c, hc, rfl⟩ := emit_eq_ok_iff.mp h
  rw [← erase_statement hc, Statement.length_values_erase]

/-- The parameters are the values that the comparisons bind, then the limit and the offset. -/
theorem params_eq {plan : Plan} {e : Emitted} (h : emit plan = .ok e) :
    e.params = plan.leaves.flatMap Plan.Leaf.slots
      ++ [.ofInt64 plan.pagination.limit, .ofInt64 plan.pagination.offset] := by
  obtain ⟨-, c, hc, rfl⟩ := emit_eq_ok_iff.mp h
  have hvalues : (statement plan c).conditionValues = plan.leaves.flatMap Plan.Leaf.slots := by
    rcases conditionOf_eq_ok_iff.mp hc with ⟨hnone, rfl⟩ | ⟨f, d, hsome, hd, rfl⟩
    · rw [Plan.leaves, hnone]
      rfl
    · rw [Plan.leaves, hsome]
      exact Condition.values_ofPlan hd
  rw [Statement.values, hvalues]
  rfl

end Sql

end SchemaQuery
