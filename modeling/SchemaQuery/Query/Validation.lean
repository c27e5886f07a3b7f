import SchemaQuery.Query.Aggregation
import SchemaQuery.Query.Basic
import SchemaQuery.Query.Operator
import SchemaQuery.Schema.Registry

/-!
# Validation of queries

A query is checked against a registry section by section: model, projection, filter, grouping,
aggregates, sort, pagination.  The first offence ends the check.  A query that passes can be
planned and written as SQL without further errors.

## Main definitions

* `ValidationError`, `ShapeDefect`, `ValueDefect` - the offences, with `kind` and `message`.
* `checkComparison`, `checkFilter`, `checkAggregate`, … - the checks of the sections.
* `Query.validate` - the whole check.

## Design notes

Lists are checked by `checkEach`, which knows the position of every item; the check of an
aggregate also sees the labels before it.  Nothing looks at what comes later.
-/

namespace SchemaQuery

open Json (Value)

/-! ## Offences -/

/-- What a field has to admit. -/
inductive Capability where
  | filterable
  | groupable
  | aggregatable
  deriving DecidableEq, Repr

/-- The word for a capability. -/
def Capability.name : Capability → String
  | filterable => "filterable"
  | groupable => "groupable"
  | aggregatable => "aggregatable"

/-- How a value fails to suit its operator. -/
inductive ValueDefect where
  | notTaken
  | missing
  | notArray
  | boundIsNull
  | notPair
  | notText
  deriving DecidableEq, Repr

/-- The wording of a value's defect, after the operator. -/
def ValueDefect.message : ValueDefect → String
  | notTaken => "does not take a value"
  | missing => "requires a value"
  | notArray => "requires an array value"
  | boundIsNull => "bounds cannot be null"
  | notPair => "requires a two-element array value"
  | notText => "requires a string value"

/-- What is wrong with an aggregate on its own. -/
inductive AggregateDefect where
  | labelMissing
  | labelInvalid (label : String)
  | labelReserved (label : String)
  | labelShadows (label : String)
  | labelRepeated (label : String)
  | unknownFunction (function : String)
  | fieldMissing (function : String)
  deriving DecidableEq, Repr

/-- The wording of an aggregate's defect, after its position. -/
def AggregateDefect.message : AggregateDefect → String
  | labelMissing => "alias is required"
  | labelInvalid label => "alias is not a valid identifier: " ++ Text.quote label
  | labelReserved label => "alias is a reserved word: " ++ label
  | labelShadows label => "alias shadows field: " ++ label
  | labelRepeated label => "duplicate alias: " ++ label
  | unknownFunction function => "unknown function: " ++ Text.quote function
  | fieldMissing function => "field is required for function " ++ function

/-- What is wrong with the shape of a query. -/
inductive ShapeDefect where
  | modelMissing
  | fieldEmpty
  | filterFieldMissing
  | unknownOperator (op : String)
  | value (field : String) (op : Operator) (defect : ValueDefect)
  | noConditions (connective : String)
  | groupFieldEmpty
  | aggregate (index : Nat) (defect : AggregateDefect)
  | sortFieldMissing (index : Nat)
  | invalidDirection (index : Nat) (direction : String)
  | limitNotPositive
  | offsetNegative
  deriving DecidableEq, Repr

/-- The wording of a query's defect. -/
def ShapeDefect.message : ShapeDefect → String
  | modelMissing => "model is required"
  | fieldEmpty => "field name cannot be empty"
  | filterFieldMissing => "filter field is required"
  | unknownOperator op => "unknown operator: " ++ Text.quote op
  | value field op defect => "filter on " ++ field ++ ": " ++ op.name ++ " " ++ defect.message
  | noConditions connective =>
    "logical filter `" ++ connective ++ "` requires at least one condition"
  | groupFieldEmpty => "group_by field cannot be empty"
  | aggregate index defect => "aggregate" ++ bracketed index ++ " " ++ defect.message
  | sortFieldMissing index => "sort" ++ bracketed index ++ " field is required"
  | invalidDirection index direction =>
    "sort" ++ bracketed index ++ " invalid direction: " ++ Text.quote direction
  | limitNotPositive => "pagination limit must be greater than 0"
  | offsetNegative => "pagination offset must be non-negative"

/-- Why a query is rejected. -/
inductive ValidationError where
  | unknownModel (model : String)
  | unknownField (model field : String)
  | capabilityDenied (field : String) (capability : Capability)
  | operatorTypeMismatch (operator field : String) (type : FieldType)
  | shape (defect : ShapeDefect)
  deriving DecidableEq, Repr

namespace ValidationError

/-- The kind of a rejection. -/
def kind : ValidationError → ErrorKind
  | unknownModel _ => .unknownModel
  | unknownField _ _ => .unknownField
  | capabilityDenied _ _ => .capabilityDenied
  | operatorTypeMismatch _ _ _ => .operatorTypeMismatch
  | shape _ => .shapeError

/-- The wording of a rejection. -/
def message : ValidationError → String
  | unknownModel model => "model not found: " ++ model
  | unknownField model field => "field not found in model " ++ model ++ ": " ++ field
  | capabilityDenied field capability => "field is not " ++ capability.name ++ ": " ++ field
  | operatorTypeMismatch operator field type =>
    operator ++ " is not valid for field " ++ field ++ " of type " ++ type.name
  | shape defect => defect.message

end ValidationError

/-! ## Checks -/

namespace Validation

/-- The outcome of a check. -/
abbrev Check := Except ValidationError Unit

/-- Rejects a query for its shape. -/
def reject {α : Type} (defect : ShapeDefect) : Except ValidationError α := .error (.shape defect)

/-- Passes if the condition holds and fails with the given error otherwise. -/
def demand (condition : Prop) [Decidable condition] (error : ValidationError) : Check :=
  if condition then .ok () else .error error

/-- Checks the items of a list in order, the first of them at position `index`. -/
def checkEach {α : Type} (check : Nat → α → Check) (index : Nat) : List α → Check
  | [] => .ok ()
  | x :: rest => do
    check index x
    checkEach check (index + 1) rest

/-- The field of a model. -/
def resolve (model : Model) (name : String) : Except ValidationError Field :=
  match model.field? name with
  | some field => .ok field
  | none => .error (.unknownField model.key name)

/-- A projected name is a field of the model. -/
def checkField (model : Model) (name : String) : Check := do
  demand (name ≠ "") (.shape .fieldEmpty)
  let _ ← resolve model name

/-- How a value fails to suit an operator, if it does. -/
def valueDefect? (op : Operator) (value : Option Value) : Option ValueDefect :=
  match op.takesValue, value with
  | false, none => none
  | false, some _ => some .notTaken
  | true, none => some .missing
  | true, some value =>
    if op.takesCollection then
      match value.view with
      | .array _ => none
      | _ => some .notArray
    else if op = .between then
      match value.view with
      | .array [low, high] => if low.isNull || high.isNull then some .boundIsNull else none
      | _ => some .notPair
    else if op.isPattern then
      match value.view with
      | .text _ => none
      | _ => some .notText
    else none

/-- A comparison names a filterable field and an operator that suits the field and the
value. -/
def checkComparison (model : Model) (c : Comparison) : Check := do
  demand (c.field ≠ "") (.shape .filterFieldMissing)
  let field ← resolve model c.field
  demand field.filterable (.capabilityDenied field.key .filterable)
  match Operator.ofName? c.op with
  | none => reject (.unknownOperator c.op)
  | some op =>
    demand (op.isPattern → field.type = .string)
      (.operatorTypeMismatch op.name field.key field.type)
    match valueDefect? op c.value with
    | some defect => reject (.value field.key op defect)
    | none => .ok ()

/-- A conjunction or disjunction has conditions, all of which pass. -/
def checkBranches (model : Model) (connective : String) (branches : List Comparison) : Check := do
  demand (branches ≠ []) (.shape (.noConditions connective))
  checkEach (fun _ => checkComparison model) 0 branches

/-- The comparisons of a filter pass. -/
def checkFilter (model : Model) : Filter → Check
  | .comparison c => checkComparison model c
  | .and branches => checkBranches model "and" branches
  | .or branches => checkBranches model "or" branches
  | .not c => checkComparison model c

/-- A name that is grouped by is a groupable field. -/
def checkGroup (model : Model) (name : String) : Check := do
  demand (name ≠ "") (.shape .groupFieldEmpty)
  let field ← resolve model name
  demand field.groupable (.capabilityDenied field.key .groupable)

/-- The label of an aggregate is an identifier of its own: no reserved word, no field of the
model and none of the labels before it. -/
def labelDefect? (model : Model) (earlier : List String) (label : String) :
    Option AggregateDefect :=
  if label = "" then some .labelMissing
  else if isIdentifier label = false then some (.labelInvalid label)
  else if isReserved label then some (.labelReserved label)
  else if model.hasField label then some (.labelShadows label)
  else if label ∈ earlier then some (.labelRepeated label)
  else none

/-- An aggregate counts rows, or applies its function to a field that admits it.  A field of
the wrong type is reported as such even when it cannot be aggregated at all. -/
def checkFunction (model : Model) (index : Nat) (a : Aggregate) : Check :=
  match AggregateFunction.ofName? a.function with
  | none => reject (.aggregate index (.unknownFunction a.function))
  | some function =>
    match a.field? with
    | none => demand (function = .count) (.shape (.aggregate index (.fieldMissing a.function)))
    | some name => do
      let field ← resolve model name
      -- the type first: a field of another type mostly cannot be aggregated either
      demand (function.requiresNumeric → field.type.isNumeric)
        (.operatorTypeMismatch a.function field.key field.type)
      demand field.aggregatable (.capabilityDenied field.key .aggregatable)

/-- The aggregate at position `index`, after aggregates with the given labels, passes. -/
def checkAggregate (model : Model) (earlier : List String) (index : Nat) (a : Aggregate) : Check :=
  match labelDefect? model earlier a.label with
  | some defect => reject (.aggregate index defect)
  | none => checkFunction model index a

/-- Checks aggregates, the first of them at position `index` after the given labels. -/
def checkAggregates (model : Model) (earlier : List String) (index : Nat) :
    List Aggregate → Check
  | [] => .ok ()
  | a :: rest => do
    checkAggregate model earlier index a
    checkAggregates model (earlier ++ [a.label]) (index + 1) rest

/-- A sort names a field or the label of an aggregate, and a direction. -/
def checkSort (model : Model) (labels : List String) (index : Nat) (s : SortKey) : Check := do
  demand (s.field ≠ "") (.shape (.sortFieldMissing index))
  demand (model.hasField s.field ∨ s.field ∈ labels) (.unknownField model.key s.field)
  demand (Direction.ofName? s.direction).isSome (.shape (.invalidDirection index s.direction))

/-- At least one row is wanted and none is skipped backwards. -/
def checkPagination (p : Pagination) : Check := do
  demand (0 < p.limit) (.shape .limitNotPositive)
  demand (0 ≤ p.offset) (.shape .offsetNegative)

/-- An optional section passes if it is absent or its content does. -/
def checkOption {α : Type} (check : α → Check) : Option α → Check
  | some x => check x
  | none => .ok ()

end Validation

open Validation in
/-- Checks a query against a registry. -/
def Query.validate (registry : Registry) (query : Query) : Validation.Check := do
  demand (query.model ≠ "") (.shape .modelMissing)
  match registry.model? query.model with
  | none => .error (.unknownModel query.model)
  | some model =>
    checkEach (fun _ => checkField model) 0 query.fields
    checkOption (checkFilter model) query.filters
    checkEach (fun _ => checkGroup model) 0 query.groupBy
    checkAggregates model [] 0 query.aggregates
    checkEach (checkSort model (query.aggregates.map (·.label))) 0 query.sort
    checkOption checkPagination query.pagination

end SchemaQuery
