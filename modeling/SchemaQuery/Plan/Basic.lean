import SchemaQuery.Query.Aggregation
import SchemaQuery.Query.Basic
import SchemaQuery.Query.Operator
import SchemaQuery.Schema.FieldType

/-!
# Plans

A plan is a query whose names were looked up: every column carries the alias of its table and
its type, operators and functions are what they name, and the defaults are filled in.  Filters
may be nested to any depth, although a query nests them only once.

## Main definitions

* `Plan.Column`, `Plan.Condition`, `Plan.Aggregation`, `Plan.SortTarget` - the parts.
* `Plan` - the whole.
* `Plan.rootAlias`, `Plan.defaultPagination` - what a plan uses where the query says nothing.
-/

namespace SchemaQuery

namespace Plan

/-- A column of a table in the query. -/
structure Column where
  tableAlias : String
  name : String
  type : FieldType
  deriving DecidableEq, Repr

/-- The column as it is written in SQL. -/
def Column.qualified (c : Column) : String := c.tableAlias ++ "." ++ c.name

/-- The model that is queried. -/
structure Root where
  model : String
  table : String
  tableAlias : String
  primaryKey : Column
  deriving DecidableEq, Repr

/-- A column of the result. -/
structure Selection where
  column : Column
  label : String
  isAggregate : Bool
  deriving DecidableEq, Repr

/-- A value given by the caller, with the type of the column it is compared with. -/
structure TypedValue where
  value : Json.Value
  type : FieldType

/-- A condition on rows. -/
inductive Condition where
  | comparison (left : Column) (op : Operator) (value : Option TypedValue)
  | logical (op : Connective) (nodes : List Condition)

/-- A function applied to a column; only a count may lack one, and then counts rows. -/
structure Aggregation where
  function : AggregateFunction
  column : Option Column
  label : String
  deriving DecidableEq, Repr

/-- What rows are sorted by. -/
inductive SortTarget where
  | column (c : Column)
  | aggregate (a : Aggregation)
  deriving DecidableEq, Repr

/-- A sort of the rows. -/
structure Ordering where
  target : SortTarget
  direction : Direction
  deriving DecidableEq, Repr

/-- The alias of the queried table in every plan. -/
def rootAlias : String := "t0"

/-- The pagination of a query that gives none. -/
def defaultPagination : Pagination := ⟨100, 0⟩

end Plan

/-- A query with everything looked up. -/
structure Plan where
  root : Plan.Root
  select : List Plan.Selection
  filters : Option Plan.Condition
  groupBy : List Plan.Column
  aggregates : List Plan.Aggregation
  sort : List Plan.Ordering
  pagination : Pagination

end SchemaQuery
