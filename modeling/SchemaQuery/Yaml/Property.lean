import SchemaQuery.Numeric.Digits
import SchemaQuery.Text.Hexadecimal
import SchemaQuery.Yaml.Character
import SchemaQuery.Yaml.Token

/-!
# Anchors, tags and directives

The tokens that say something about a node or a document instead of being content.

## Main definitions

* `readName?` - the name of an anchor or alias.
* `readTag?` - a tag: verbatim, or a handle and a suffix.
* `readDirective?` - a directive about the version of YAML or a tag handle.
-/

namespace SchemaQuery.Yaml

/-! ## Names -/

/-- The characters of names. -/
def isNameChar (p : Placed) : Bool := p.char.isAlphanum || p.char = '_' || p.char = '-'

/-- The characters of a piece of text. -/
def charsOf (cs : List Placed) : List Char := cs.map Placed.char

/-- Splits a text after the name it starts with, which may be empty. -/
def splitName (cs : List Placed) : List Char × List Placed :=
  (charsOf (cs.takeWhile isNameChar), cs.dropWhile isNameChar)

/-- Reads the name of an anchor or alias, which a blank or an indicator ends. -/
def readName? (cs : List Placed) : Option (String × List Placed) :=
  let (name, rest) := splitName cs
  let ended := startsBlank rest || startsWithOneOf "?:,]\x7d%@`".toList rest
  if name.isEmpty || !ended then none else some (String.ofList name, rest)

/-! ## Tags -/

/-- The characters of tags, apart from names and escapes. -/
def isTagChar (p : Placed) : Bool :=
  isNameChar p || ";/?:@&=+$.!~*\x27()".toList.contains p.char

/-- The number of octets after a first one in the encoding of a character. -/
def octetsAfter? (octet : Nat) : Option Nat :=
  if octet < 0x80 then some 0
  else if 0xc0 ≤ octet ∧ octet < 0xe0 then some 1
  else if 0xe0 ≤ octet ∧ octet < 0xf0 then some 2
  else if 0xf0 ≤ octet ∧ octet < 0xf8 then some 3
  else none

/-- Reads the longest run of characters of tags, octet by octet; an escape `%hh` is an octet.
`brackets` admits commas and brackets, and `due` octets of a character are still to come. -/
def readTagChars (brackets : Bool) : (due : Nat) → List Placed → Option (List Char × List Placed)
  | due, p :: q :: r :: rest =>
    if p.char = '%' then do
      let high ← Text.hexValue? q.char
      let low ← Text.hexValue? r.char
      let octet := high * 16 + low
      let due ←
        match due with
        | 0 => octetsAfter? octet
        | due + 1 => if 0x80 ≤ octet ∧ octet < 0xc0 then some due else none
      let (octets, rest) ← readTagChars brackets due rest
      return (Char.ofNat octet :: octets, rest)
    else if due ≠ 0 then none
    else if isTagChar p || (brackets && [',', '[', ']'].contains p.char) then do
      let (octets, rest) ← readTagChars brackets 0 (q :: r :: rest)
      return (p.char :: octets, rest)
    else some ([], p :: q :: r :: rest)
  | due, p :: rest =>
    if due ≠ 0 || p.char = '%' then none
    else if isTagChar p || (brackets && [',', '[', ']'].contains p.char) then do
      let (octets, rest) ← readTagChars brackets 0 rest
      return (p.char :: octets, rest)
    else some ([], p :: rest)
  | due, [] => if due = 0 then some ([], []) else none

/-- Reads characters of tags, at least one. -/
def readTagChars? (brackets : Bool) (cs : List Placed) : Option (String × List Placed) := do
  let (octets, rest) ← readTagChars brackets 0 cs
  if octets.isEmpty then none else some (String.ofList octets, rest)

/-- Reads a tag after its exclamation mark, without regard to what follows it.  A verbatim tag
and the tag `!` have an empty handle. -/
def readTagParts? (cs : List Placed) : Option (Token × List Placed) :=
  if startsWithOneOf ['<'] cs then do
    let (uri, rest) ← readTagChars? true (cs.drop 1)
    if startsWithOneOf ['>'] rest then some (.tag "" uri, rest.drop 1) else none
  else
    let (name, rest) := splitName cs
    if startsWithOneOf ['!'] rest then do
      let (suffix, rest) ← readTagChars? false (rest.drop 1)
      return (.tag (String.ofList ('!' :: name ++ ['!'])) suffix, rest)
    else do
      -- what looked like the name of a handle is the start of the suffix
      let (octets, rest) ← readTagChars false 0 rest
      if name.isEmpty && octets.isEmpty then some (.tag "" "!", rest)
      else some (.tag "!" (String.ofList (name ++ octets)), rest)

/-- Reads a tag after its exclamation mark.  A blank ends it, and in brackets a comma. -/
def readTag? (inFlow : Bool) (cs : List Placed) : Option (Token × List Placed) := do
  let (token, rest) ← readTagParts? cs
  if startsBlank rest || (inFlow && startsWithOneOf [','] rest) then some (token, rest) else none

/-! ## Directives -/

/-- Reads a number of one to nine digits. -/
def readVersionNumber? (cs : List Placed) : Option (Nat × List Placed) :=
  let isDigit : Placed → Bool := fun p => (Numeric.digitValue? p.char).isSome
  let digits := cs.takeWhile isDigit
  if digits.isEmpty || 9 < digits.length then none
  else
    let values := digits.filterMap fun p => Numeric.digitValue? p.char
    some (Numeric.ofDigits values, cs.dropWhile isDigit)

/-- Reads the version in a directive. -/
def readVersion? (cs : List Placed) : Option (Token × List Placed) := do
  let (major, rest) ← readVersionNumber? cs
  if startsWithOneOf ['.'] rest then
    let (minor, rest) ← readVersionNumber? (rest.drop 1)
    return (.version major minor, rest)
  else none

/-- Reads a tag handle and what it stands for in a directive. -/
def readHandle? (cs : List Placed) : Option (Token × List Placed) := do
  if startsWithOneOf ['!'] cs then
    let (name, rest) := splitName (cs.drop 1)
    let (handle, rest) ←
      if startsWithOneOf ['!'] rest then some ('!' :: name ++ ['!'], rest.drop 1)
      else if name.isEmpty then some (['!'], rest)
      else none
    let uri := rest.dropWhile Placed.isBlank
    if uri.length < rest.length then
      let (uri, rest) ← readTagChars? true uri
      if startsBlank rest then some (.handle (String.ofList handle) uri, rest) else none
    else none
  else none

/-- Reads a directive after its percent sign, up to the end of its line. -/
def readDirective? (cs : List Placed) : Option (Token × List Placed) := do
  let (name, rest) := splitName cs
  if !startsBlank rest then none
  else
    let value := rest.dropWhile Placed.isBlank
    let (token, rest) ←
      if name = "YAML".toList then readVersion? value
      else if name = "TAG".toList then readHandle? value
      else none
    return (token, ← afterLine? rest)

end SchemaQuery.Yaml
