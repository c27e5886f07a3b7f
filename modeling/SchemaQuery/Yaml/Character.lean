/-!
# Characters of a YAML text

In YAML the place of a token decides what it belongs to, so a text is read as a list of
characters with their places.  Line breaks of every spelling are told apart only where that
shows: carriage return, line feed, both together and U+0085 become a line feed, while the
separators U+2028 and U+2029 stay as they are.

## Main definitions

* `Placed`, `Placed.ofText?` - a character with its place, and all of them.
* `isBlank`, `isBreak` - the characters between and after words.
* `startsBlank`, `startsMarker` - what the rest of a text starts with.
-/

namespace SchemaQuery.Yaml

/-- A character with its place: the bytes before it, its line, and its column in the line. -/
structure Placed where
  char : Char
  offset : Nat
  line : Nat
  column : Nat
  deriving DecidableEq, Repr

/-- The characters that may stand in a YAML text. -/
def isAllowed (c : Char) : Bool :=
  let n := c.toNat
  n = 0x09 || n = 0x0a || n = 0x0d || (0x20 ≤ n && n ≤ 0x7e) || n = 0x85
    || (0xa0 ≤ n && n ≤ 0xd7ff) || (0xe000 ≤ n && n ≤ 0xfffd) || 0x10000 ≤ n

/-- Spaces and tabs. -/
def isBlank (c : Char) : Bool := c = ' ' || c = '\t'

/-- The line breaks that are told apart. -/
def isBreak (c : Char) : Bool := c = '\n' || c = '\u2028' || c = '\u2029'

/-- The line break that a single character spells, if it spells one. -/
def breakOf? (c : Char) : Option Char :=
  if c = '\r' || c = '\u0085' then some '\n' else if isBreak c then some c else none

/-- The mark that may stand before the first token of a line. -/
def byteOrderMark : Char := '\ufeff'

namespace Placed

/-- Gives the characters of a text their places, from a given place on. -/
def place (offset line column : Nat) : List Char → List Placed
  | [] => []
  | '\r' :: '\n' :: rest => ⟨'\n', offset, line, column⟩ :: place (offset + 2) (line + 1) 0 rest
  | c :: rest =>
    match breakOf? c with
    | some b => ⟨b, offset, line, column⟩ :: place (offset + c.utf8Size) (line + 1) 0 rest
    | none => ⟨c, offset, line, column⟩ :: place (offset + c.utf8Size) line (column + 1) rest

/-- The characters of a text with their places; `none` if one of them may not stand in it. -/
def ofText? (s : String) : Option (List Placed) :=
  if s.toList.all isAllowed then some (place 0 0 0 s.toList) else none

/-- Whether the character is a line break. -/
def isBreak (p : Placed) : Bool := Yaml.isBreak p.char

/-- Whether the character is a space or a tab. -/
def isBlank (p : Placed) : Bool := Yaml.isBlank p.char

end Placed

/-- Whether a text starts with a blank or a line break, or is at its end. -/
def startsBlank : List Placed → Bool
  | [] => true
  | p :: _ => p.isBlank || p.isBreak

/-- Whether a text starts with one of the given characters. -/
def startsWithOneOf (characters : List Char) : List Placed → Bool
  | [] => false
  | p :: _ => characters.contains p.char

/-- Whether a text starts with a marker between documents: three times the same character, at
the start of a line and apart from what follows. -/
def startsMarker (c : Char) : List Placed → Bool
  | p :: q :: r :: rest =>
    p.column = 0 && p.char = c && q.char = c && r.char = c && startsBlank rest
  | _ => false

/-- Whether a text starts with the marker before or after a document. -/
def startsDocumentMarker (cs : List Placed) : Bool := startsMarker '-' cs || startsMarker '.' cs

/-- Goes past the blanks and the comment at the end of a line, and past its break.  None if
something else stands there. -/
def afterLine? (cs : List Placed) : Option (List Placed) :=
  let cs := cs.dropWhile Placed.isBlank
  let cs := if startsWithOneOf ['#'] cs then cs.dropWhile fun p => !p.isBreak else cs
  match cs with
  | [] => some []
  | p :: rest => if p.isBreak then some rest else none

end SchemaQuery.Yaml
