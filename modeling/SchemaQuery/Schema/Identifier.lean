/-!
# Names in a schema

Names are written into SQL without quotes, so only plain identifiers are admitted: an ASCII
letter or underscore, then letters, digits and underscores.  A table name may be qualified by
one schema.

## Main definitions

* `isIdentifier` - whether a text is a plain identifier.
* `isReserved` - whether it is a reserved word of PostgreSQL, in any letter case.
* `Identifier`, `TableName` - names known to be admissible.
-/

namespace SchemaQuery

/-- Whether a character may start an identifier. -/
def isIdentifierStart (c : Char) : Bool := c.isAlpha || c == '_'

/-- Whether a character may stand in an identifier. -/
def isIdentifierChar (c : Char) : Bool := c.isAlphanum || c == '_'

/-- Whether a list of characters is a plain identifier. -/
def areIdentifier : List Char → Bool
  | [] => false
  | c :: rest => isIdentifierStart c && rest.all isIdentifierChar

/-- Whether a text is a plain identifier. -/
def isIdentifier (s : String) : Bool := areIdentifier s.toList

/-- The reserved words of PostgreSQL, which cannot stand alone as a column name. -/
def reservedWords : List String :=
  ["all", "analyse", "analyze", "and", "any", "array", "as", "asc", "asymmetric", "both",
    "case", "cast", "check", "collate", "column", "constraint", "create", "current_catalog",
    "current_date", "current_role", "current_time", "current_timestamp", "current_user",
    "default", "deferrable", "desc", "distinct", "do", "else", "end", "except", "false",
    "fetch", "for", "foreign", "from", "grant", "group", "having", "in", "initially",
    "intersect", "into", "lateral", "leading", "limit", "localtime", "localtimestamp", "not",
    "null", "offset", "on", "only", "or", "order", "placing", "primary", "references",
    "returning", "select", "session_user", "some", "symmetric", "table", "then", "to",
    "trailing", "true", "union", "unique", "user", "using", "variadic", "when", "where",
    "window", "with"]

/-- A text with its ASCII letters in lower case. -/
def lowerCase (s : String) : String := String.ofList (s.toList.map Char.toLower)

/-- Whether a text is a reserved word, in any letter case. -/
def isReserved (s : String) : Bool := reservedWords.contains (lowerCase s)

/-- A plain identifier. -/
structure Identifier where
  text : String
  valid : isIdentifier text = true
  deriving DecidableEq

/-- A text as an identifier, if it is one. -/
def Identifier.ofText? (s : String) : Option Identifier :=
  if valid : isIdentifier s = true then some ⟨s, valid⟩ else none

/-- The name of a table, optionally qualified by a schema. -/
structure TableName where
  schema : Option Identifier
  table : Identifier
  deriving DecidableEq

namespace TableName

/-- The name as it is written in SQL. -/
def text (name : TableName) : String :=
  match name.schema with
  | some schema => schema.text ++ "." ++ name.table.text
  | none => name.table.text

/-- A text as a table name: an identifier, or two around its first point. -/
def ofText? (s : String) : Option TableName :=
  match s.toList.span (· ≠ '.') with
  | (_, []) => (Identifier.ofText? s).map fun table => ⟨none, table⟩
  | (schema, _ :: table) => do
    let schema ← Identifier.ofText? (String.ofList schema)
    let table ← Identifier.ofText? (String.ofList table)
    return ⟨some schema, table⟩

end TableName

end SchemaQuery
