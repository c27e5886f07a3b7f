import SchemaQuery.Numeric.Digits
import SchemaQuery.Sql.Statement

/-!
# SQL text

A statement is written with a numbered placeholder for each of its values.  The number of a
placeholder is one more than the number of placeholders to its left.

## Main definitions

* `placeholder` - the placeholder of a number.
* `Condition.render` - a condition, given how many placeholders were written before it.
* `Statement.render` - the statement.

## Design notes

A negation is written without parentheses and a conjunction or disjunction with them.  This
reads back rightly because a negation binds less than every test and more than what joins
them.
-/

namespace SchemaQuery.Sql

variable {α : Type}

/-- The placeholder that follows `before` others. -/
def placeholder (before : Nat) : String :=
  "$" ++ String.ofList (Numeric.decimalText (before + 1))

/-- A test, after `before` placeholders. -/
def Predicate.render (before : Nat) : Predicate α → String
  | .isNull c => c.qualified ++ " IS NULL"
  | .isNotNull c => c.qualified ++ " IS NOT NULL"
  | .compare c op _ => c.qualified ++ " " ++ op.text ++ " " ++ placeholder before
  | .equalsAny c _ => c.qualified ++ " = ANY(" ++ placeholder before ++ ")"
  | .differsFromAll c _ => c.qualified ++ " != ALL(" ++ placeholder before ++ ")"
  | .between c _ _ =>
    c.qualified ++ " BETWEEN " ++ placeholder before ++ " AND " ++ placeholder (before + 1)

namespace Condition

mutual

/-- A condition, after `before` placeholders. -/
def render (before : Nat) : Condition α → String
  | .predicate p => p.render before
  | .and conditions => "(" ++ " AND ".intercalate (renderEach before conditions) ++ ")"
  | .or conditions => "(" ++ " OR ".intercalate (renderEach before conditions) ++ ")"
  | .not condition => "NOT " ++ condition.render before

/-- Conditions one after the other, the first after `before` placeholders. -/
def renderEach (before : Nat) : List (Condition α) → List String
  | [] => []
  | condition :: rest =>
    condition.render before :: renderEach (before + condition.values.length) rest

end

end Condition

/-- An item of the select list. -/
def Output.render : Output → String
  | .column c none => c.qualified
  | .column c (some label) => c.qualified ++ " AS " ++ label
  | .aggregate function (some c) label =>
    function.sql ++ "(" ++ c.qualified ++ ") AS " ++ label
  | .aggregate function none label => function.sql ++ "(*) AS " ++ label

/-- An item of the order list. -/
def SortKey.render : SortKey → String
  | .column c => c.qualified
  | .label name => name

/-- A clause with a list, left out when the list is empty. -/
def listClause (keyword : String) (items : List String) : List String :=
  if items.isEmpty then [] else [keyword ++ ", ".intercalate items]

namespace Statement

/-- The select clause. -/
def selectClause (s : Statement α) : String :=
  if s.outputs.isEmpty then "SELECT *"
  else "SELECT " ++ ", ".intercalate (s.outputs.map Output.render)

/-- The where clause, if there is a condition. -/
def whereClause (s : Statement α) : List String :=
  match s.condition with
  | some condition => ["WHERE " ++ condition.render 0]
  | none => []

/-- The limit clause, after `before` placeholders. -/
def limitClause (before : Nat) : String :=
  "LIMIT " ++ placeholder before ++ " OFFSET " ++ placeholder (before + 1)

/-- The clauses in order. -/
def clauses (s : Statement α) : List String :=
  [s.selectClause, "FROM " ++ s.table ++ " " ++ s.tableAlias]
    ++ s.whereClause
    ++ listClause "GROUP BY " (s.groupBy.map (·.qualified))
    ++ listClause "ORDER BY "
      (s.orderBy.map fun (key, direction) => key.render ++ " " ++ direction.sql)
    ++ [limitClause s.conditionValues.length]

/-- The statement as text. -/
def render (s : Statement α) : String := " ".intercalate s.clauses ++ ";"

end Statement

end SchemaQuery.Sql
