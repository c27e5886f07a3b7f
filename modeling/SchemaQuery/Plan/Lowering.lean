import SchemaQuery.Plan.Basic
import SchemaQuery.Schema.Registry

/-!
# Planning

A query becomes a plan by looking every name up in a registry.  For a query that was validated
against the same registry this cannot fail; against another one it fails at the first name
that is not there.

## Main definitions

* `PlanError` - why a query cannot be planned.
* `Plan.ofQuery` - the plan of a query.
-/

namespace SchemaQuery

/-- Why a query cannot be planned. -/
inductive PlanError where
  | unknownModel (model : String)
  | unknownField (model field : String)
  | unknownOperator (op : String)
  | unknownFunction (function : String)
  | fieldMissing (label : String)
  | invalidDirection (direction : String)
  deriving DecidableEq, Repr

namespace PlanError

/-- The kind of the failure. -/
def kind : PlanError → ErrorKind
  | unknownModel _ => .unknownModel
  | unknownField _ _ => .unknownField
  | _ => .shapeError

/-- The wording of the failure. -/
def message : PlanError → String
  | unknownModel model => "model not found: " ++ model
  | unknownField model field => "field not found in model " ++ model ++ ": " ++ field
  | unknownOperator op => "unknown operator: " ++ Text.quote op
  | unknownFunction function => "unknown aggregate function: " ++ Text.quote function
  | fieldMissing label => "aggregate " ++ label ++ " requires a field"
  | invalidDirection direction => "invalid sort direction: " ++ Text.quote direction

end PlanError

namespace Plan

/-- A value where there has to be one. -/
def require {α : Type} (error : PlanError) : Option α → Except PlanError α
  | some x => .ok x
  | none => .error error

/-- The column of a field. -/
def columnOf (model : Model) (name : String) : Except PlanError Column := do
  let field ← require (.unknownField model.key name) (model.field? name)
  return ⟨rootAlias, field.key, field.type⟩

/-- A projected field as a column of the result. -/
def selectionOf (model : Model) (name : String) : Except PlanError Selection := do
  return ⟨← columnOf model name, name, false⟩

/-- A comparison of a query as a condition.  A null test carries no value. -/
def comparisonOf (model : Model) (c : Comparison) : Except PlanError Condition := do
  let left ← columnOf model c.field
  let op ← require (.unknownOperator c.op) (Operator.ofName? c.op)
  let value := if op.takesValue then c.value.map fun value => ⟨value, left.type⟩ else none
  return .comparison left op value

/-- A filter of a query as a condition; a negation has one node. -/
def conditionOf (model : Model) : Filter → Except PlanError Condition
  | .comparison c => comparisonOf model c
  | .and branches => do return .logical .and (← branches.mapM (comparisonOf model))
  | .or branches => do return .logical .or (← branches.mapM (comparisonOf model))
  | .not c => do return .logical .not [← comparisonOf model c]

/-- An optional part of a query. -/
def optional {α β : Type} (f : α → Except PlanError β) : Option α → Except PlanError (Option β)
  | some x => do return some (← f x)
  | none => .ok none

/-- An aggregate of a query with its function and column; only a count may lack a column. -/
def aggregationOf (model : Model) (a : Aggregate) : Except PlanError Aggregation := do
  let function ← require (.unknownFunction a.function) (AggregateFunction.ofName? a.function)
  let column ← optional (columnOf model) a.field?
  if column = none ∧ function ≠ .count then .error (.fieldMissing a.label)
  else return ⟨function, column, a.label⟩

/-- What a sort refers to: a field of the model, or else the aggregate of that label. -/
def sortTargetOf (model : Model) (aggregates : List Aggregation) (name : String) :
    Except PlanError SortTarget :=
  if model.hasField name then do return .column (← columnOf model name)
  else do
    return .aggregate (← require (.unknownField model.key name) (aggregates.find? (·.label = name)))

/-- A sort of a query with its direction and target. -/
def orderingOf (model : Model) (aggregates : List Aggregation) (s : SortKey) :
    Except PlanError Ordering := do
  let direction ← require (.invalidDirection s.direction) (Direction.ofName? s.direction)
  let target ← sortTargetOf model aggregates s.field
  return ⟨target, direction⟩

/-- The queried model with its primary key. -/
def rootOf (model : Model) : Except PlanError Root := do
  return ⟨model.key, model.table.text, rootAlias, ← columnOf model model.primaryKey⟩

/-- The plan of a query. -/
def ofQuery (registry : Registry) (query : Query) : Except PlanError Plan := do
  let model ← require (.unknownModel query.model) (registry.model? query.model)
  let root ← rootOf model
  let select ← query.fields.mapM (selectionOf model)
  let filters ← optional (conditionOf model) query.filters
  let groupBy ← query.groupBy.mapM (columnOf model)
  let aggregates ← query.aggregates.mapM (aggregationOf model)
  let sort ← query.sort.mapM (orderingOf model aggregates)
  return ⟨root, select, filters, groupBy, aggregates, sort,
    query.pagination.getD defaultPagination⟩

end Plan

end SchemaQuery
