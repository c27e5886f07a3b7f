import SchemaQuery.Json.Value
import SchemaQuery.Numeric.Layout
import SchemaQuery.Text.Quoted

/-!
# What can be wrong with a document

A text that should hold data of a certain shape can fail in two ways.  It is malformed when
some part that has to be read is not JSON or has no value; or it is JSON of another shape, and
then the first offence is reported with the place where it was met.

## Main definitions

* `Found` - the kind of value that stood where another was expected.
* `Fault` - an offence against the expected shape, with its `message`.
* `Step`, `pathText` - the way from the top of the document to a value.
* `DecodeError` - either failure.
-/

namespace SchemaQuery.Json

open Numeric (Binary64 intText)

/-- A value as a message describes it. -/
inductive Found where
  | null
  | bool (value : Bool)
  | number (value : Number)
  | text (value : String)
  | sequence
  | map

/-- The description of a value in messages. -/
def Found.describe : Found → String
  | .null => "null"
  | .bool b => "boolean `" ++ (if b then "true" else "false") ++ "`"
  | .number (.int i) => "integer `" ++ String.ofList (intText i) ++ "`"
  | .number (.float x) => "floating point `" ++ String.ofList x.dataText ++ "`"
  | .text s => "string " ++ Text.quote s
  | .sequence => "sequence"
  | .map => "map"

/-- How a tree is described where another kind of value was expected. -/
def Tree.found : Tree → Found
  | .null => .null
  | .bool b => .bool b
  | .number n => .number n
  | .text s => .text s
  | .array _ => .sequence
  | .object _ => .map

/-- An offence of a document against the shape that was expected. -/
inductive Fault where
  /-- A value of another kind. -/
  | wrongType (found : Found) (expected : String)
  /-- A value of the right kind that is not among the expected ones. -/
  | wrongValue (found : Found) (expected : String)
  /-- An object lacks a member. -/
  | missingMember (name : String)
  /-- An object has a member twice. -/
  | duplicateMember (name : String)
  /-- An object has a member that is not `known`. -/
  | unknownMember (name : String) (known : List String)
  /-- A text is not one of the `known` names of a choice. -/
  | unknownVariant (name : String) (known : List String)
  /-- An array has the wrong length. -/
  | wrongLength (length : Nat) (expected : String)
  /-- A rule of the expected shape is broken; the text is the rule's own. -/
  | rejected (reason : String)

/-- Names in backticks. -/
def ticked (name : String) : String := "`" ++ name ++ "`"

/-- What was expected, given the names that would have done. -/
def expectedOneOf : List String → String
  | [] => "there are none"
  | [only] => "expected " ++ ticked only
  | [first, second] => "expected " ++ ticked first ++ " or " ++ ticked second
  | names => "expected one of " ++ ", ".intercalate (names.map ticked)

/-- A count of elements. -/
def elements (n : Nat) : String :=
  if n = 1 then "1 element" else String.ofList (Numeric.decimalText n) ++ " elements"

/-- The wording of a fault. -/
def Fault.message : Fault → String
  | .wrongType found expected =>
    "invalid type: " ++ found.describe ++ ", expected " ++ expected
  | .wrongValue found expected =>
    "invalid value: " ++ found.describe ++ ", expected " ++ expected
  | .missingMember name => "missing field " ++ ticked name
  | .duplicateMember name => "duplicate field " ++ ticked name
  | .unknownMember name known => "unknown field " ++ ticked name ++ ", " ++ expectedOneOf known
  | .unknownVariant name known =>
    "unknown variant " ++ ticked name ++ ", " ++ expectedOneOf known
  | .wrongLength length expected =>
    "invalid length " ++ String.ofList (Numeric.decimalText length) ++ ", expected " ++ expected
  | .rejected reason => reason

/-- One step from a value into a part of it. -/
inductive Step where
  | member (name : String)
  | item (index : Nat)
  deriving DecidableEq, Repr

/-- A step as it is written after other steps. -/
def Step.text : Step → String
  | .member name => "." ++ name
  | .item index => "[" ++ String.ofList (Numeric.decimalText index) ++ "]"

/-- A path, written without a leading point. -/
def pathText : List Step → String
  | .member name :: rest => name ++ String.join (rest.map Step.text)
  | path => String.join (path.map Step.text)

/-- Why a document does not hold data of the expected shape. -/
inductive DecodeError where
  /-- A part that is read is not JSON, or a number or string in it has no value. -/
  | malformed
  /-- The value at `path` is not as expected. -/
  | data (path : List Step) (fault : Fault)

/-- The result of reading data out of a document. -/
abbrev Decoded := Except DecodeError

/-- Fails with a fault of the value at hand. -/
def offend {α : Type} (fault : Fault) : Decoded α := .error (.data [] fault)

/-- A reading of a part, whose failures are reported at the end of the step to it. -/
def under {α : Type} (step : Step) : Decoded α → Decoded α
  | .error (.data path fault) => .error (.data (step :: path) fault)
  | result => result

end SchemaQuery.Json
