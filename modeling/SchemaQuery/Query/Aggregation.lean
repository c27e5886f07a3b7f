/-!
# Aggregate functions and sort directions

Queries write these words in lower case, plans and SQL in upper case.

## Main definitions

* `AggregateFunction`, with `name`, `sql` and `requiresNumeric`.
* `Direction`, with `ofName?` and `sql`.
-/

namespace SchemaQuery

/-- A function over the rows of a group. -/
inductive AggregateFunction where
  | count
  | sum
  | avg
  | min
  | max
  deriving DecidableEq, Repr

namespace AggregateFunction

/-- The name of a function in queries. -/
def name : AggregateFunction → String
  | count => "count"
  | sum => "sum"
  | avg => "avg"
  | min => "min"
  | max => "max"

/-- The name of a function in plans and SQL. -/
def sql : AggregateFunction → String
  | count => "COUNT"
  | sum => "SUM"
  | avg => "AVG"
  | min => "MIN"
  | max => "MAX"

/-- Functions are told apart by their names in plans and SQL. -/
theorem sql_inj {f g : AggregateFunction} : f.sql = g.sql ↔ f = g := by
  cases f <;> cases g <;> decide

/-- All functions. -/
def all : List AggregateFunction := [count, sum, avg, min, max]

/-- All functions by their name in plans. -/
def table : List (String × AggregateFunction) := all.map fun f => (f.sql, f)

/-- The function that a query names. -/
def ofName? (s : String) : Option AggregateFunction := all.find? (·.name = s)

/-- Whether the function adds values up, so that it needs numbers. -/
def requiresNumeric : AggregateFunction → Bool
  | sum | avg => true
  | _ => false

/-- A function is found under its name and no other. -/
theorem ofName?_eq_some_iff {s : String} {f : AggregateFunction} :
    ofName? s = some f ↔ f.name = s := by
  constructor
  · intro h
    simpa using List.find?_some h
  · rintro rfl
    cases f <;> rfl

end AggregateFunction

/-- The direction of a sort. -/
inductive Direction where
  | asc
  | desc
  deriving DecidableEq, Repr

namespace Direction

/-- The word for a direction in plans and SQL. -/
def sql : Direction → String
  | asc => "ASC"
  | desc => "DESC"

/-- Directions are told apart by their words. -/
theorem sql_inj {d e : Direction} : d.sql = e.sql ↔ d = e := by
  cases d <;> cases e <;> decide

/-- Both directions by their name in plans. -/
def table : List (String × Direction) := [asc, desc].map fun d => (d.sql, d)

/-- The direction that a query names; no name means ascending. -/
def ofName? (s : String) : Option Direction :=
  if s = "" ∨ s = "asc" then some asc
  else if s = "desc" then some desc
  else none

end Direction

end SchemaQuery
