import SchemaQuery.Plan.Basic

/-!
# SQL statements

The statements that plans become: a selection from one table, with its clauses as data.  A
value that the caller gave stands in the statement where its placeholder will be written, so
that a placeholder and its value cannot come apart.  `α` is the type of these values.

## Main definitions

* `Predicate`, `Condition` - tests of a row.
* `Output`, `SortKey` - items of the select and order lists.
* `Statement` - the statement, with `Statement.values`, its values in the order of their
  placeholders.
-/

namespace SchemaQuery.Sql

/-- A comparison of a column with one value. -/
inductive Comparator where
  | eq
  | ne
  | gt
  | ge
  | lt
  | le
  | like
  | ilike
  deriving DecidableEq, Repr

/-- The operator in SQL. -/
def Comparator.text : Comparator → String
  | eq => "="
  | ne => "!="
  | gt => ">"
  | ge => ">="
  | lt => "<"
  | le => "<="
  | like => "LIKE"
  | ilike => "ILIKE"

/-- A test of one column. -/
inductive Predicate (α : Type) where
  | isNull (column : Plan.Column)
  | isNotNull (column : Plan.Column)
  | compare (column : Plan.Column) (op : Comparator) (value : α)
  /-- The column equals some element of a collection. -/
  | equalsAny (column : Plan.Column) (values : α)
  /-- The column differs from every element of a collection. -/
  | differsFromAll (column : Plan.Column) (values : α)
  | between (column : Plan.Column) (low high : α)

/-- A condition on rows. -/
inductive Condition (α : Type) where
  | predicate (p : Predicate α)
  | and (conditions : List (Condition α))
  | or (conditions : List (Condition α))
  | not (condition : Condition α)

/-- An item of the select list. -/
inductive Output where
  | column (c : Plan.Column) (label : Option String)
  | aggregate (function : AggregateFunction) (column : Option Plan.Column) (label : String)

/-- An item of the order list. -/
inductive SortKey where
  | column (c : Plan.Column)
  | label (name : String)

/-- A selection from one table. -/
structure Statement (α : Type) where
  /-- What is selected; everything if there is nothing in particular. -/
  outputs : List Output
  table : String
  tableAlias : String
  condition : Option (Condition α)
  groupBy : List Plan.Column
  orderBy : List (SortKey × Direction)
  limit : α
  offset : α

variable {α : Type}

/-- The values of a test from left to right. -/
def Predicate.values : Predicate α → List α
  | .isNull _ => []
  | .isNotNull _ => []
  | .compare _ _ value => [value]
  | .equalsAny _ values => [values]
  | .differsFromAll _ values => [values]
  | .between _ low high => [low, high]

namespace Condition

mutual

/-- The values of a condition from left to right. -/
def values : Condition α → List α
  | .predicate p => p.values
  | .and conditions => valuesOf conditions
  | .or conditions => valuesOf conditions
  | .not condition => condition.values

/-- The values of conditions one after the other. -/
def valuesOf : List (Condition α) → List α
  | [] => []
  | condition :: rest => condition.values ++ valuesOf rest

end

end Condition

/-- The values of the condition of a statement. -/
def Statement.conditionValues (s : Statement α) : List α :=
  match s.condition with
  | some condition => condition.values
  | none => []

/-- The values of a statement in the order of their placeholders: those of the condition, the
limit and the offset. -/
def Statement.values (s : Statement α) : List α := s.conditionValues ++ [s.limit, s.offset]

end SchemaQuery.Sql
