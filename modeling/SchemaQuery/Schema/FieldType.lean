/-!
# Field types

The closed set of types a field may be declared with.  `integer` and `int`, and `datetime` and
`timestamp`, are separate types with the same meaning: a listing shows the word that the schema
used.

## Main definitions

* `FieldType` - the types, with `name` and `ofName?`.
* `FieldType.isNumeric` - the types that sums and averages accept.

## Main statements

* `FieldType.ofName?_eq_some_iff` - a type is found under its name and no other.
-/

namespace SchemaQuery

/-- The type of a field. -/
inductive FieldType where
  | string
  | integer
  | int
  | float
  | decimal
  | boolean
  | datetime
  | timestamp
  | date
  | uuid
  | json
  deriving DecidableEq, Repr

namespace FieldType

/-- The word for a type. -/
def name : FieldType → String
  | string => "string"
  | integer => "integer"
  | int => "int"
  | float => "float"
  | decimal => "decimal"
  | boolean => "boolean"
  | datetime => "datetime"
  | timestamp => "timestamp"
  | date => "date"
  | uuid => "uuid"
  | json => "json"

/-- All types. -/
def all : List FieldType :=
  [string, integer, int, float, decimal, boolean, datetime, timestamp, date, uuid, json]

/-- All types by name. -/
def table : List (String × FieldType) := all.map fun type => (type.name, type)

/-- The type that a word stands for. -/
def ofName? (word : String) : Option FieldType := all.find? (·.name = word)

/-- Whether sums and averages accept the type; such fields are aggregatable by default. -/
def isNumeric : FieldType → Bool
  | integer | int | float | decimal => true
  | _ => false

theorem mem_all (t : FieldType) : t ∈ all := by cases t <;> decide

theorem name_injective {s t : FieldType} (h : s.name = t.name) : s = t := by
  revert h; cases s <;> cases t <;> decide

/-- A type is found under its name and no other. -/
theorem ofName?_eq_some_iff {word : String} {t : FieldType} :
    ofName? word = some t ↔ t.name = word := by
  constructor
  · intro h
    simpa using List.find?_some h
  · rintro rfl
    cases t <;> rfl

end FieldType

end SchemaQuery
