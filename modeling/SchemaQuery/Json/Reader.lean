import SchemaQuery.Json.Document
import SchemaQuery.Text.Hexadecimal

/-!
# Reading JSON text

The grammar of JSON over a list of characters.  Every function returns what it read together
with the characters after it, and `none` where the grammar is not met.

## Main definitions

* `readString`, `readNumeral` - the two kinds of token with an inner structure.
* `readValue` - any value.
* `cutValue` - as much of a value as stands before the text breaks off.
* `Document.parse?` - a text that holds one value and nothing else.
* `Document.parseStart?` - the value a text starts with, whatever follows it.

## Design notes

The readers of values, items and members call one another and take a bound on the nesting of
these calls.  One more than the length of the text is enough for every value: an array or
object pays for the calls on its parts with its brackets and commas.

A text that is no JSON still shows a value up to the place where it breaks off, and data is
read as far as that.  What is missing is held by a text without a value or a member whose key
has none, so that no reader of data gets past it.
-/

namespace SchemaQuery.Json

open Numeric (digitValue? ofDigits)
open Text (hexValue?)

/-! ## Blanks -/

/-- Space, tab, line feed and carriage return may stand between tokens. -/
def isSpace (c : Char) : Bool := c = ' ' || c = '\t' || c = '\n' || c = '\r'

/-- The text without leading blanks. -/
def skipSpace (cs : List Char) : List Char := cs.dropWhile isSpace

/-! ## Strings -/

/-- The 16-bit number of four hexadecimal digits. -/
def hexUnit? (a b c d : Char) : Option Nat := do
  let a ← hexValue? a
  let b ← hexValue? b
  let c ← hexValue? c
  let d ← hexValue? d
  return ((a * 16 + b) * 16 + c) * 16 + d

/-- A piece of a string: a character, or an escape for half of a surrogate pair. -/
inductive Piece where
  | char (c : Char)
  | high (unit : Nat)
  | low (unit : Nat)
  deriving DecidableEq, Repr

/-- The piece that a 16-bit escape stands for. -/
def Piece.ofUnit (unit : Nat) : Piece :=
  if 0xd800 ≤ unit ∧ unit < 0xdc00 then .high unit
  else if 0xdc00 ≤ unit ∧ unit < 0xe000 then .low unit
  else .char (Char.ofNat unit)

/-- The character of an escape that has a letter of its own. -/
def shortEscape? (c : Char) : Option Char :=
  match c with
  | '"' => some '"'
  | '\\' => some '\\'
  | '/' => some '/'
  | 'b' => some '\x08'
  | 'f' => some '\x0c'
  | 'n' => some '\n'
  | 'r' => some '\r'
  | 't' => some '\t'
  | _ => none

/-- Reads the pieces of a string up to and including the closing quotation mark.  Characters
below U+0020 must be escaped. -/
def readPieces : List Char → Option (List Piece × List Char)
  | '"' :: rest => some ([], rest)
  | '\\' :: 'u' :: a :: b :: c :: d :: rest => do
    let unit ← hexUnit? a b c d
    let (pieces, rest) ← readPieces rest
    return (.ofUnit unit :: pieces, rest)
  | '\\' :: e :: rest => do
    let c ← shortEscape? e
    let (pieces, rest) ← readPieces rest
    return (.char c :: pieces, rest)
  | c :: rest =>
    if c = '\\' ∨ c.toNat < 0x20 then none
    else do
      let (pieces, rest) ← readPieces rest
      return (.char c :: pieces, rest)
  | [] => none

/-- Joins the halves of surrogate pairs; `none` if a half stands alone. -/
def joinPieces : List Piece → Option (List Char)
  | [] => some []
  | .char c :: rest => (joinPieces rest).map (c :: ·)
  | .high h :: .low l :: rest =>
    -- ten bits in each half, counted from U+10000
    (joinPieces rest).map (Char.ofNat (0x10000 + (h - 0xd800) * 0x400 + (l - 0xdc00)) :: ·)
  | _ => none

/-- Reads a string after its opening quotation mark. -/
def readString (cs : List Char) : Option (Option String × List Char) := do
  let (pieces, rest) ← readPieces cs
  return ((joinPieces pieces).map String.ofList, rest)

/-! ## Numbers -/

/-- Reads the longest run of digits. -/
def readDigits : List Char → List Nat × List Char
  | [] => ([], [])
  | c :: rest =>
    match digitValue? c with
    | some d =>
      let (digits, rest) := readDigits rest
      (d :: digits, rest)
    | none => ([], c :: rest)

/-- Reads the fraction of a number, if there is one; a point needs a digit after it. -/
def readFraction : List Char → Option (List Nat × List Char)
  | '.' :: rest =>
    match readDigits rest with
    | ([], _) => none
    | (digits, rest) => some (digits, rest)
  | cs => some ([], cs)

/-- Reads the digits of an exponent, of which there is at least one. -/
def readExponentDigits (negative : Bool) (cs : List Char) : Option (Option Int × List Char) :=
  match readDigits cs with
  | ([], _) => none
  | (digits, rest) =>
    let value : Int := ofDigits digits
    some (some (if negative then -value else value), rest)

/-- Reads the exponent of a number, if there is one. -/
def readExponent : List Char → Option (Option Int × List Char)
  | c :: rest =>
    if c = 'e' ∨ c = 'E' then
      match rest with
      | '+' :: rest => readExponentDigits false rest
      | '-' :: rest => readExponentDigits true rest
      | rest => readExponentDigits false rest
    else some (none, c :: rest)
  | [] => some (none, [])

/-- Reads a number without its sign.  A whole part of several digits does not start with
zero. -/
def readUnsigned (negative : Bool) (cs : List Char) : Option (Numeral × List Char) :=
  match readDigits cs with
  | ([], _) => none
  | (0 :: _ :: _, _) => none
  | (digits, rest) => do
    let (fraction, rest) ← readFraction rest
    let (exponent, rest) ← readExponent rest
    return (⟨negative, ofDigits digits, fraction, exponent⟩, rest)

/-- Reads a number. -/
def readNumeral : List Char → Option (Numeral × List Char)
  | '-' :: rest => readUnsigned true rest
  | cs => readUnsigned false cs

/-! ## Values -/

mutual

/-- Reads a value after optional blanks. -/
def readValue : Nat → List Char → Option (Document × List Char)
  | 0, _ => none
  | fuel + 1, cs =>
    match skipSpace cs with
    | 'n' :: 'u' :: 'l' :: 'l' :: rest => some (.null, rest)
    | 't' :: 'r' :: 'u' :: 'e' :: rest => some (.bool true, rest)
    | 'f' :: 'a' :: 'l' :: 's' :: 'e' :: rest => some (.bool false, rest)
    | '"' :: rest => (readString rest).map fun (s, rest) => (.text s, rest)
    | '[' :: rest =>
      match skipSpace rest with
      | ']' :: rest => some (.array [], rest)
      | rest => (readItems fuel rest).map fun (items, rest) => (.array items, rest)
    | '\x7b' :: rest =>
      match skipSpace rest with
      | '\x7d' :: rest => some (.object [], rest)
      | rest => (readMembers fuel rest).map fun (members, rest) => (.object members, rest)
    | rest => (readNumeral rest).map fun (n, rest) => (.number n, rest)

/-- Reads the items of an array up to and including the closing bracket. -/
def readItems : Nat → List Char → Option (List Document × List Char)
  | 0, _ => none
  | fuel + 1, cs => do
    let (item, rest) ← readValue fuel cs
    match skipSpace rest with
    | ']' :: rest => return ([item], rest)
    | ',' :: rest =>
      let (items, rest) ← readItems fuel rest
      return (item :: items, rest)
    | _ => none

/-- Reads the members of an object up to and including the closing brace. -/
def readMembers : Nat → List Char → Option (List (Option String × Document) × List Char)
  | 0, _ => none
  | fuel + 1, cs =>
    match skipSpace cs with
    | '"' :: rest => do
      let (key, rest) ← readString rest
      match skipSpace rest with
      | ':' :: rest =>
        let (value, rest) ← readValue fuel rest
        match skipSpace rest with
        | '\x7d' :: rest => return ([(key, value)], rest)
        | ',' :: rest =>
          let (members, rest) ← readMembers fuel rest
          return ((key, value) :: members, rest)
        | _ => none
      | _ => none
    | _ => none

end

/-! ## Texts that break off -/

mutual

/-- A value as far as it can be read. -/
def cutValue : Nat → List Char → Document
  | 0, _ => .text none
  | fuel + 1, cs =>
    match skipSpace cs with
    | '[' :: rest => .array (cutItems fuel rest)
    | '\x7b' :: rest => .object (cutMembers fuel rest)
    | _ => .text none

/-- The items of an array as far as they can be read. -/
def cutItems : Nat → List Char → List Document
  | 0, _ => [.text none]
  | fuel + 1, cs =>
    match readValue fuel cs with
    | none => [cutValue fuel cs, .text none]
    | some (item, rest) =>
      match skipSpace rest with
      | ',' :: rest => item :: cutItems fuel rest
      | _ => [item, .text none]

/-- The members of an object as far as they can be read. -/
def cutMembers : Nat → List Char → List (Option String × Document)
  | 0, _ => [(none, .null)]
  | fuel + 1, cs =>
    match skipSpace cs with
    | '"' :: rest =>
      match readString rest with
      | none => [(none, .null)]
      | some (key, rest) =>
        match skipSpace rest with
        | ':' :: rest =>
          match readValue fuel rest with
          | none => [(key, cutValue fuel rest), (none, .null)]
          | some (value, rest) =>
            match skipSpace rest with
            | ',' :: rest => (key, value) :: cutMembers fuel rest
            | _ => [(key, value), (none, .null)]
        | _ => [(key, .text none), (none, .null)]
    | _ => [(none, .null)]

end

/-! ## Texts -/

namespace Document

/-- The value that a text starts with, and what follows it. -/
def parseStart? (cs : List Char) : Option (Document × List Char) := readValue (cs.length + 1) cs

/-- What a text shows of a value before it breaks off. -/
def parseCut (cs : List Char) : Document := cutValue (cs.length + 1) cs

/-- The value of a text that holds one value and, apart from blanks, nothing else. -/
def parse? (s : String) : Option Document := do
  let (d, rest) ← parseStart? s.toList
  if skipSpace rest = [] then some d else none

end Document

end SchemaQuery.Json
