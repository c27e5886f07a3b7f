import SchemaQuery.Json.Fault
import SchemaQuery.Json.Reader

/-!
# Reading data out of documents

Readers for the kinds of data that documents are made of: texts, words, lists, records,
choices by name, and free values.  A reader goes through its document in the order of the text
and reports the first offence.

## Main definitions

* `Origin` - whether a document is read as its text is, or from memory after the whole was
  read.
* `Document.toText`, `toBool`, `toInt64`, `toList`, `toOption`, `toValue` - the simple readers.
* `Record` - a record with named members, written as an object or as an array of its members.
* `Document.toRecord`, `Document.toVariant`, `Document.toIdentifier` - readers of records, of
  choices by name, and of bare names of choices.
* `Document.decodeStart`, `Document.decodeText` - read data from a text.

## Design notes

A record is described by data: its title in messages, its members in order with what their
absence means, a blank record that holds the defaults, and a function that reads one member
into a record.  A required member never keeps its blank, since the reader fails when it is
absent.
-/

namespace SchemaQuery.Json

/-- Where a document is read from.  The two origins word some faults differently. -/
inductive Origin where
  /-- Straight from the text. -/
  | text
  /-- From memory, after the whole value was read to find out what it is. -/
  | memory
  deriving DecidableEq, Repr

namespace Document

/-- How a document is described where another kind of value was expected.  A scalar has to be
read for that, so one without a value is malformed. -/
def found : Document → Decoded Found
  | .null => .ok .null
  | .bool b => .ok (.bool b)
  | .number n =>
    match n.value? with
    | some value => .ok (.number value)
    | none => .error .malformed
  | .text (some s) => .ok (.text s)
  | .text none => .error .malformed
  | .array _ => .ok .sequence
  | .object _ => .ok .map

/-- Fails because the document is not of the expected kind. -/
def mismatch {α : Type} (d : Document) (expected : String) : Decoded α := do
  let found ← d.found
  offend (.wrongType found expected)

/-- Reads a text. -/
def toText : Document → Decoded String
  | .text (some s) => .ok s
  | d => d.mismatch "a string"

/-- Reads a truth value. -/
def toBool : Document → Decoded Bool
  | .bool b => .ok b
  | d => d.mismatch "a boolean"

/-- Reads a signed 64-bit word. -/
def toInt64 (d : Document) : Decoded Int64 :=
  match d with
  | .number n =>
    match n.value? with
    | some (.int i) =>
      if i ≤ Int64.maxValue.toInt then .ok (Int64.ofInt i)
      else offend (.wrongValue (.number (.int i)) "i64")
    | _ => d.mismatch "i64"
  | d => d.mismatch "i64"

/-- Reads the items of an array from position `index` on. -/
def toItems {α : Type} (read : Document → Decoded α) : Nat → List Document → Decoded (List α)
  | _, [] => .ok []
  | index, item :: rest => do
    let item ← under (.item index) (read item)
    let rest ← toItems read (index + 1) rest
    return item :: rest

/-- Reads a list. -/
def toList {α : Type} (read : Document → Decoded α) : Document → Decoded (List α)
  | .array items => toItems read 0 items
  | d => d.mismatch "a sequence"

/-- Reads an optional value; `null` stands for none. -/
def toOption {α : Type} (read : Document → Decoded α) : Document → Decoded (Option α)
  | .null => .ok none
  | d => do
    let value ← read d
    return some value

/-- Reads a free value where `outer` arrays and objects are open. -/
def toValue (outer : Nat) (d : Document) : Decoded Value :=
  if d.isDecodable outer then
    match d.toValue? with
    | some value => .ok value
    | none => .error .malformed
  else .error .malformed

end Document

/-! ## Records -/

/-- What the absence of a member means. -/
inductive Presence where
  /-- The member has a default. -/
  | defaulted
  /-- The member is none in an object that lacks it; an array has to reach it. -/
  | nullable
  /-- The member has to be there. -/
  | required
  deriving DecidableEq, Repr

/-- A record as documents write it. -/
structure Record (α : Type) where
  /-- What messages call the record. -/
  title : String
  /-- The members in order. -/
  members : List (String × Presence)
  /-- The record in which every member has its default. -/
  blank : α
  /-- Reads a member, given by its name, into a record. -/
  place : α → String → Document → Decoded α

namespace Record

variable {α : Type}

/-- The names of the members. -/
def names (r : Record α) : List String := r.members.map (·.1)

/-- Reads the members of an object in the order of the text, skipping those of other names.
Returns the names it met with the record. -/
def readMembers (r : Record α) (met : List String) (acc : α) :
    List (Option String × Document) → Decoded (List String × α)
  | [] => .ok (met, acc)
  | (none, _) :: _ => .error .malformed
  | (some name, value) :: rest =>
    if name ∈ r.names then
      if name ∈ met then offend (.duplicateMember name)
      else do
        let acc ← under (.member name) (r.place acc name value)
        r.readMembers (name :: met) acc rest
    else r.readMembers met acc rest

/-- The first required member that an object did not have. -/
def absent? (r : Record α) (met : List String) : Option String :=
  (r.members.find? fun m => m.2 = .required ∧ m.1 ∉ met).map (·.1)

/-- Reads the items of an array as the members from position `index` on.  Items beyond the last
member end the reading of a text; in memory they are counted. -/
def readItems (r : Record α) (origin : Origin) (acc : α) (index : Nat) :
    List (String × Presence) → List Document → Decoded α
  | [], [] => .ok acc
  | [], surplus =>
    match origin with
    | .text => .error .malformed
    | .memory => offend (.wrongLength (index + surplus.length) (elements index ++ " in sequence"))
  | (_, presence) :: members, [] =>
    -- a default fills the gap only if all members after it have one too
    if presence = .defaulted then r.readItems origin acc (index + 1) members []
    else offend (.wrongLength index (r.title ++ " with " ++ elements r.members.length))
  | (name, _) :: members, item :: rest => do
    let acc ← under (.item index) (r.place acc name item)
    r.readItems origin acc (index + 1) members rest

/-- Reads a record from the members of an object. -/
def ofMembers (r : Record α) (members : List (Option String × Document)) : Decoded α := do
  let (met, acc) ← r.readMembers [] r.blank members
  match r.absent? met with
  | some name => offend (.missingMember name)
  | none => return acc

/-- Reads a record from the items of an array. -/
def ofItems (r : Record α) (origin : Origin) (items : List Document) : Decoded α :=
  r.readItems origin r.blank 0 r.members items

end Record

namespace Document

/-- Reads a record from an object or an array. -/
def toRecord {α : Type} (r : Record α) (origin : Origin) : Document → Decoded α
  | .object members => r.ofMembers members
  | .array items => r.ofItems origin items
  | d => d.mismatch r.title

/-! ## Choices -/

/-- The choice of a name. -/
def variantOf {α : Type} (table : List (String × α)) (name : String) : Decoded α :=
  match table.find? (·.1 = name) with
  | some (_, choice) => .ok choice
  | none => offend (.unknownVariant name (table.map (·.1)))

/-- Reads the name of a choice whose content stands elsewhere.  In memory the position of the
choice in its table does as well. -/
def toIdentifier {α : Type} (table : List (String × α)) (origin : Origin) (d : Document) :
    Decoded α :=
  match d with
  | .text (some name) => variantOf table name
  | .number n =>
    match origin, n.value? with
    | .memory, some (.int i) =>
      if i < 0 then d.mismatch "variant identifier"
      else
        match table[i.toNat]? with
        | some (_, choice) => .ok choice
        | none =>
          let size := String.ofList (Numeric.decimalText table.length)
          offend (.wrongValue (.number (.int i)) ("variant index 0 <= i < " ++ size))
    | _, _ => d.mismatch "variant identifier"
  | d => d.mismatch "variant identifier"

/-- Whether a document is the empty content of a choice: `null`, or in memory also an empty
object. -/
def toUnit (origin : Origin) : Document → Decoded Unit
  | .null => .ok ()
  | .object [] => if origin = .memory then .ok () else offend (.wrongType .map "unit")
  | d => d.mismatch "unit"

/-- Reads a choice by its name; the name may also be the key of an object whose one member has
no content. -/
def toVariant {α : Type} (table : List (String × α)) (origin : Origin) : Document → Decoded α
  | .text (some name) => variantOf table name
  | .object ((some name, content) :: rest) =>
    match origin, rest with
    -- in memory the members are counted before any of them is looked at
    | .memory, _ :: _ => offend (.wrongValue .map "map with a single key")
    | _, _ => do
      let choice ← variantOf table name
      content.toUnit origin
      if rest = [] then return choice else .error .malformed
  | .object [] =>
    match origin with
    | .text => .error .malformed
    | .memory => offend (.wrongValue .map "map with a single key")
  | d =>
    match origin with
    | .text => .error .malformed
    | .memory => d.mismatch "string or map"

/-! ## Texts -/

/-- Reads data from the value that a text starts with; returns it with what follows the value.
Data is read along with the text, so an offence before the place where the text breaks off is
the one reported. -/
def decodeStart {α : Type} (read : Document → Decoded α) (cs : List Char) :
    Decoded (α × List Char) :=
  match parseStart? cs with
  | some (d, rest) => do
    let value ← read d
    return (value, rest)
  | none => do
    let _ ← read (parseCut cs)
    .error .malformed

/-- Reads data from a text that holds one value and, apart from blanks, nothing else. -/
def decodeText {α : Type} (read : Document → Decoded α) (s : String) : Decoded α := do
  let (value, rest) ← decodeStart read s.toList
  if skipSpace rest = [] then return value else .error .malformed

end Document

end SchemaQuery.Json
