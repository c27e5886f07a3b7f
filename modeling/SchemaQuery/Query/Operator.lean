/-!
# Operators of filters

## Main definitions

* `Operator` - the eighteen comparisons of a filter, with `name` and `ofName?`.
* `Operator.takesValue`, `isPattern`, `takesCollection` - what an operator compares with.
* `Connective` - how conditions are joined, with `sql`.

## Main statements

* `Operator.ofName?_eq_some_iff` - an operator is found under its name and no other.
-/

namespace SchemaQuery

/-- A comparison of a filter. -/
inductive Operator where
  | eq
  | ne
  | gt
  | gte
  | lt
  | lte
  | before
  | after
  | between
  | isIn
  | notIn
  | isNull
  | notNull
  | like
  | ilike
  | startsWith
  | endsWith
  | contains
  deriving DecidableEq, Repr

namespace Operator

/-- The spelling of an operator in queries and plans. -/
def name : Operator → String
  | eq => "="
  | ne => "!="
  | gt => ">"
  | gte => ">="
  | lt => "<"
  | lte => "<="
  | before => "before"
  | after => "after"
  | between => "between"
  | isIn => "in"
  | notIn => "not_in"
  | isNull => "is_null"
  | notNull => "not_null"
  | like => "like"
  | ilike => "ilike"
  | startsWith => "starts_with"
  | endsWith => "ends_with"
  | contains => "contains"

/-- All operators. -/
def all : List Operator :=
  [eq, ne, gt, gte, lt, lte, before, after, between, isIn, notIn, isNull, notNull, like, ilike,
    startsWith, endsWith, contains]

/-- All operators by name. -/
def table : List (String × Operator) := all.map fun op => (op.name, op)

/-- The operator of a spelling. -/
def ofName? (s : String) : Option Operator := all.find? (·.name = s)

/-- Whether an operator compares with a value; the null tests do not. -/
def takesValue : Operator → Bool
  | isNull | notNull => false
  | _ => true

/-- Whether an operator matches patterns, which only texts can be compared with. -/
def isPattern : Operator → Bool
  | like | ilike | startsWith | endsWith | contains => true
  | _ => false

/-- Whether an operator compares with a collection. -/
def takesCollection : Operator → Bool
  | isIn | notIn => true
  | _ => false

/-- An operator is found under its name and no other. -/
theorem ofName?_eq_some_iff {s : String} {op : Operator} : ofName? s = some op ↔ op.name = s := by
  constructor
  · intro h
    simpa using List.find?_some h
  · rintro rfl
    cases op <;> rfl

end Operator

/-- How the conditions of a logical filter are joined. -/
inductive Connective where
  | and
  | or
  | not
  deriving DecidableEq, Repr

namespace Connective

/-- The word for a connective in plans and in SQL. -/
def sql : Connective → String
  | and => "AND"
  | or => "OR"
  | not => "NOT"

/-- Connectives are told apart by their words. -/
theorem sql_inj {c d : Connective} : c.sql = d.sql ↔ c = d := by
  cases c <;> cases d <;> decide

/-- All connectives by name. -/
def table : List (String × Connective) := [and, or, not].map fun op => (op.sql, op)

end Connective

end SchemaQuery
