import SchemaQuery.Json.Value

/-!
# Queries

A query as a caller states it: it names a model and what is wanted of it.  Names, operators and
functions are texts here; whether they exist is for the validation to say.

## Main definitions

* `Comparison`, `Filter` - a condition, or one level of conditions joined by a connective.
* `Aggregate`, `SortKey`, `Pagination` - the other clauses.
* `Query` - the whole.
-/

namespace SchemaQuery

/-- A field compared with a value by an operator. -/
structure Comparison where
  field : String := ""
  op : String := ""
  value : Option Json.Value := none

/-- A filter: a comparison, or comparisons joined by a connective. -/
inductive Filter where
  | comparison (c : Comparison)
  | and (branches : List Comparison)
  | or (branches : List Comparison)
  | not (c : Comparison)

/-- The comparisons of a filter, from left to right. -/
def Filter.comparisons : Filter → List Comparison
  | .comparison c => [c]
  | .and branches => branches
  | .or branches => branches
  | .not c => [c]

/-- A function applied to a field, under a label of its own. -/
structure Aggregate where
  function : String := ""
  field : Option String := none
  label : String := ""
  deriving DecidableEq, Repr

/-- The field of an aggregate; an empty name counts as none. -/
def Aggregate.field? (a : Aggregate) : Option String := a.field.filter (· ≠ "")

/-- A sort by a field or an aggregate. -/
structure SortKey where
  field : String := ""
  direction : String := ""
  deriving DecidableEq, Repr

/-- How many rows are wanted and how many are skipped before them. -/
structure Pagination where
  limit : Int64 := 0
  offset : Int64 := 0
  deriving DecidableEq, Repr

/-- A query of one model. -/
structure Query where
  model : String := ""
  fields : List String := []
  filters : Option Filter := none
  groupBy : List String := []
  aggregates : List Aggregate := []
  sort : List SortKey := []
  pagination : Option Pagination := none

end SchemaQuery
