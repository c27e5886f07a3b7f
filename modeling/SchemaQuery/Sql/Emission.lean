import SchemaQuery.ErrorKind
import SchemaQuery.Json.Writer
import SchemaQuery.Sql.Render

/-!
# From plans to SQL

A plan becomes a statement with the values of its conditions in place.  Plans may come from
anywhere, so what a validated query cannot contain is still an error here: the first defect in
the order of the aggregates and then of the filter, a node before its children.

## Main definitions

* `EmitError` - the defects of a plan.
* `Condition.ofPlan`, `Statement.ofPlan` - the statement of a plan.
* `Emitted`, `emit` - the text of the statement with its parameters.
-/

namespace SchemaQuery

open Json (Value)

/-! ## Defects of a plan -/

/-- What an operator expected of its value. -/
inductive Expectation where
  | text
  | pair
  deriving DecidableEq, Repr

/-- The words for an expectation. -/
def Expectation.name : Expectation → String
  | text => "a string"
  | pair => "a [low, high] array"

/-- A defect that keeps a plan from being written as SQL. -/
inductive EmitError where
  | missingValue (op : Operator)
  | badValue (op : Operator) (expected : Expectation) (got : Value)
  | notArity (nodes : Nat)
  | emptyLogical (op : Connective)
  | missingColumn (label : String)

namespace EmitError

/-- Every such defect is a failure to emit. -/
def kind (_ : EmitError) : ErrorKind := .emitError

/-- The wording of a defect. -/
def message : EmitError → String
  | missingValue op => "value required for " ++ op.name ++ " operator"
  | badValue op expected got =>
    op.name ++ " expects " ++ expected.name ++ ", got " ++ got.toText
  | notArity nodes =>
    "NOT filter must have exactly one node, got " ++ String.ofList (Numeric.decimalText nodes)
  | emptyLogical op => op.sql ++ " filter has no nodes"
  | missingColumn label => "aggregate " ++ label ++ " has no column"

end EmitError

/-! ## Conditions -/

namespace Sql

/-- The text that a pattern operator needs. -/
def patternText (op : Operator) (value : Value) : Except EmitError String :=
  match value.view with
  | .text s => .ok s
  | _ => .error (.badValue op .text value)

/-- The two bounds that `between` needs. -/
def boundsOf (value : Value) : Except EmitError (Value × Value) :=
  match value.view with
  | .array [low, high] => .ok (low, high)
  | _ => .error (.badValue .between .pair value)

/-- The test that an operator makes with a value.  Patterns for a part of a text are the text
with wildcards on the open sides. -/
def Predicate.ofValue (left : Plan.Column) (op : Operator) (value : Value) :
    Except EmitError (Predicate Value) :=
  match op with
  | .eq => return .compare left .eq value
  | .ne => return .compare left .ne value
  | .gt => return .compare left .gt value
  | .gte => return .compare left .ge value
  | .lt => return .compare left .lt value
  | .lte => return .compare left .le value
  | .before => return .compare left .lt value
  | .after => return .compare left .gt value
  | .isIn => return .equalsAny left value
  | .notIn => return .differsFromAll left value
  | .like => return .compare left .like value
  | .ilike => return .compare left .ilike value
  | .startsWith => return .compare left .like (.text ((← patternText op value) ++ "%"))
  | .endsWith => return .compare left .like (.text ("%" ++ (← patternText op value)))
  | .contains => return .compare left .like (.text ("%" ++ (← patternText op value) ++ "%"))
  | .between => do
    let (low, high) ← boundsOf value
    return .between left low high
  | .isNull => return .isNull left
  | .notNull => return .isNotNull left

/-- The test that a comparison of a plan makes.  Null tests ignore a value, and every other
operator needs one. -/
def Predicate.ofComparison (left : Plan.Column) (op : Operator) (value : Option Plan.TypedValue) :
    Except EmitError (Predicate Value) :=
  match op, value with
  | .isNull, _ => .ok (.isNull left)
  | .notNull, _ => .ok (.isNotNull left)
  | op, some typed => Predicate.ofValue left op typed.value
  | op, none => .error (.missingValue op)

namespace Condition

mutual

/-- The condition of a plan in SQL. -/
def ofPlan : Plan.Condition → Except EmitError (Condition Value)
  | .comparison left op value => return .predicate (← Predicate.ofComparison left op value)
  | .logical .not [node] => return .not (← ofPlan node)
  | .logical .not nodes => .error (.notArity nodes.length)
  | .logical op [] => .error (.emptyLogical op)
  | .logical .and nodes => return .and (← ofPlans nodes)
  | .logical .or nodes => return .or (← ofPlans nodes)

/-- The conditions of a plan one by one. -/
def ofPlans : List Plan.Condition → Except EmitError (List (Condition Value))
  | [] => .ok []
  | node :: rest => do
    let condition ← ofPlan node
    let conditions ← ofPlans rest
    return condition :: conditions

end

end Condition

/-! ## Statements -/

/-- A selected column; it is renamed only when its label differs from its name. -/
def Output.ofSelection (s : Plan.Selection) : Output :=
  .column s.column (if s.label = s.column.name then none else some s.label)

/-- An aggregate in the select list. -/
def Output.ofAggregation (a : Plan.Aggregation) : Except EmitError Output :=
  if a.column = none ∧ a.function ≠ .count then .error (.missingColumn a.label)
  else .ok (.aggregate a.function a.column a.label)

/-- The select list of a plan: its columns, or the grouping columns if it names none, and then
the aggregates. -/
def outputsOf (plan : Plan) : Except EmitError (List Output) := do
  let columns :=
    if plan.select = [] then plan.groupBy.map fun c => .column c none
    else plan.select.map Output.ofSelection
  let aggregates ← plan.aggregates.mapM Output.ofAggregation
  return columns ++ aggregates

/-- A sort in the order list; an aggregate is sorted by under its label. -/
def SortKey.ofTarget : Plan.SortTarget → SortKey
  | .column c => .column c
  | .aggregate a => .label a.label

/-- The condition of a plan, if it has one. -/
def conditionOf : Option Plan.Condition → Except EmitError (Option (Condition Value))
  | some condition => return some (← Condition.ofPlan condition)
  | none => .ok none

/-- The statement of a plan. -/
def Statement.ofPlan (plan : Plan) : Except EmitError (Statement Value) := do
  let outputs ← outputsOf plan
  let condition ← conditionOf plan.filters
  return {
    outputs
    table := plan.root.table
    tableAlias := plan.root.tableAlias
    condition
    groupBy := plan.groupBy
    orderBy := plan.sort.map fun s => (SortKey.ofTarget s.target, s.direction)
    limit := .ofInt64 plan.pagination.limit
    offset := .ofInt64 plan.pagination.offset }

/-- SQL text with the parameters of its placeholders: the `n`-th is bound to `$n`. -/
structure Emitted where
  sql : String
  params : List Value

/-- The parameters as JSON text. -/
def Emitted.paramsText (e : Emitted) : String :=
  (Json.Tree.array (e.params.map (·.tree))).toText

/-- The SQL of a plan. -/
def emit (plan : Plan) : Except EmitError Emitted := do
  let statement ← Statement.ofPlan plan
  return ⟨statement.render, statement.values⟩

end Sql

end SchemaQuery
