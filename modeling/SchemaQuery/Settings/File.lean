import SchemaQuery.Numeric.Digits
import SchemaQuery.Settings.Basic
import SchemaQuery.Text.Hexadecimal
import SchemaQuery.Yaml.Document

/-!
# The settings file

Settings are read from a YAML file.  A section or setting that is left out keeps its default,
keys of other names are skipped, and a section without content has all defaults.

## Main definitions

* `unsignedOfPlain?`, `portOfNode?` - the integer and the port that a scalar stands for.
* `Settings.ofDocument?` - the settings of a YAML document.
* `Settings.ofFile?` - the settings of the text of a file.
-/

namespace SchemaQuery

open Yaml (Node Document)

/-- The number of a list of digits in a base; `none` for no digits or others. -/
def numberInBase? (base : Nat) (cs : List Char) : Option Nat :=
  if cs.isEmpty then none
  else
    (cs.mapM fun c => (Text.hexValue? c).filter (· < base)).map fun values =>
      values.foldl (fun n value => n * base + value) 0

/-- An unsigned integer in decimal, its plus sign removed.  It does not start with a zero
unless it is zero. -/
def decimalNumber? (cs : List Char) : Option Nat :=
  match cs with
  | '0' :: _ :: _ => none
  | cs => numberInBase? 10 cs

/-- The unsigned integer that a plain scalar stands for: after an optional plus sign, digits in
decimal, or in the base that `0x`, `0o` or `0b` announces. -/
def unsignedOfPlain? (s : String) : Option Nat :=
  let cs :=
    match s.toList with
    | '+' :: rest => rest
    | cs => cs
  match cs with
  | '0' :: 'x' :: digits => numberInBase? 16 digits
  | '0' :: 'o' :: digits => numberInBase? 8 digits
  | '0' :: 'b' :: digits => numberInBase? 2 digits
  | cs => decimalNumber? cs

/-- A number as a port. -/
def portOf? (n : Nat) : Option UInt16 := if n < UInt16.size then some (UInt16.ofNat n) else none

/-- The tag of an integer. -/
def integerTag : String := "tag:yaml.org,2002:int"

/-- The scalar that a node of a document is or stands for. -/
def scalarOfNode? (d : Document) (node : Node) : Option Yaml.Scalar :=
  match d.content? node with
  | some (.scalar _ value) => some value
  | _ => none

/-- The text of a scalar. -/
def textOfNode? (d : Document) (node : Node) : Option String :=
  (scalarOfNode? d node).map (·.text)

/-- The port that a scalar stands for.  It is plain, or a literal block tagged as an
integer. -/
def portOfNode? (d : Document) (node : Node) : Option UInt16 := do
  let scalar ← scalarOfNode? d node
  let isNumber := scalar.style = .plain ||
    (scalar.style = .literal && scalar.tag = some integerTag)
  if isNumber then (unsignedOfPlain? scalar.text).bind portOf? else none

/-- Reads the entries of a section in order.  Every key is a scalar, and a known one occurs
once. -/
def readSettings {α : Type} (d : Document) (known : List String)
    (place : α → String → Node → Option α) (met : List String) (content : α) :
    List (Node × Node) → Option α
  | [] => some content
  | (key, value) :: rest => do
    let key ← textOfNode? d key
    if key ∈ known then
      if key ∈ met then none
      else do
        let content ← place content key value
        readSettings d known place (key :: met) content rest
    else readSettings d known place met content rest

/-- The entries of a section: those of a mapping, and none where nothing is written. -/
def entriesOf? (d : Document) (node : Node) : Option (List (Node × Node)) :=
  match d.content? node with
  | some (.mapping _ entries) => some entries
  | some (.scalar _ ⟨.plain, _, ""⟩) => some []
  | _ => none

/-- Reads a section; what is not in it has its default. -/
def readSection {α : Type} (d : Document) (known : List String)
    (place : α → String → Node → Option α) (defaults : α) (node : Node) : Option α :=
  (entriesOf? d node).bind (readSettings d known place [] defaults)

/-- Reads one setting of the section on listening. -/
def ListenSettings.place (d : Document) (s : ListenSettings) (key : String) (value : Node) :
    Option ListenSettings :=
  match key with
  | "host" => (textOfNode? d value).map fun host => { s with host }
  | _ => (portOfNode? d value).map fun port => { s with port }

/-- The section on listening. -/
def ListenSettings.ofNode? (d : Document) : Node → Option ListenSettings :=
  readSection d ["host", "port"] (ListenSettings.place d) {}

/-- Reads the one setting of the section on the schema. -/
def SchemaSettings.place (d : Document) (_ : SchemaSettings) (_ : String) (value : Node) :
    Option SchemaSettings :=
  (textOfNode? d value).map fun path => ⟨path⟩

/-- The section on the schema. -/
def SchemaSettings.ofNode? (d : Document) : Node → Option SchemaSettings :=
  readSection d ["models_path"] (SchemaSettings.place d) {}

/-- Reads one setting of the section on logging. -/
def LogSettings.place (d : Document) (s : LogSettings) (key : String) (value : Node) :
    Option LogSettings :=
  (textOfNode? d value).map fun text =>
    match key with
    | "level" => { s with level := text }
    | "format" => { s with format := text }
    | "output" => { s with output := text }
    | _ => { s with directory := text }

/-- The section on logging. -/
def LogSettings.ofNode? (d : Document) : Node → Option LogSettings :=
  readSection d ["level", "format", "output", "directory"] (LogSettings.place d) {}

namespace Settings

/-- Reads one section. -/
def place (d : Document) (s : Settings) (key : String) (value : Node) : Option Settings :=
  match key with
  | "server" => (ListenSettings.ofNode? d value).map fun server => { s with server }
  | "schema" => (SchemaSettings.ofNode? d value).map fun schema => { s with schema }
  | _ => (LogSettings.ofNode? d value).map fun logging => { s with logging }

/-- The settings of a YAML document. -/
def ofDocument? (d : Document) : Option Settings :=
  readSection d ["server", "schema", "logging"] (place d) {} d.root

/-- The characters that leave a text blank. -/
def isWhite (c : Char) : Bool :=
  let n := c.toNat
  (0x09 ≤ n && n ≤ 0x0d) || n = 0x20 || n = 0x85 || n = 0xa0 || n = 0x1680
    || (0x2000 ≤ n && n ≤ 0x200a) || n = 0x2028 || n = 0x2029 || n = 0x202f || n = 0x205f
    || n = 0x3000

/-- The settings of the text of a file; a blank text gives the defaults. -/
def ofFile? (text : String) : Option Settings :=
  if text.toList.all isWhite then some {}
  else (Document.parse? text).bind ofDocument?

end Settings

end SchemaQuery
