import SchemaQuery.Text.Hexadecimal
import SchemaQuery.Yaml.Character

/-!
# Plain and quoted scalars

In plain and quoted scalars a line break with the blanks around it reads as one space, and
further line breaks as themselves.  The separators U+2028 and U+2029 are not folded away.

## Main definitions

* `Folded` - a text under construction, with the blanks and line breaks that may follow it.
* `readPlain`, `readSingle`, `readDouble` - the readers.
-/

namespace SchemaQuery.Yaml

/-! ## Folding lines -/

/-- A text under construction. -/
structure Folded where
  /-- The characters so far, the last one first. -/
  reversed : List Char := []
  /-- The blanks after them on the same line, the last one first. -/
  blanks : List Char := []
  /-- The line breaks after them, the last one first. -/
  breaks : List Char := []
  /-- Whether an escaped line break comes before these. -/
  escaped : Bool := false

namespace Folded

/-- What the pending blanks and line breaks read as, the last character first: blanks as they
are; a first line break as nothing if it was escaped or others follow, and else as a space. -/
def joint (f : Folded) : List Char :=
  match f.breaks.reverse with
  | [] => f.blanks
  | first :: more =>
    if f.escaped || first ≠ '\n' then f.breaks
    else if more.isEmpty then [' ']
    else more.reverse

/-- Adds what is pending. -/
def flush (f : Folded) : Folded := { reversed := f.joint ++ f.reversed }

/-- Adds a character. -/
def push (f : Folded) (c : Char) : Folded :=
  let f := f.flush
  { f with reversed := c :: f.reversed }

/-- Whether the text is at the start of a line. -/
def atLineStart (f : Folded) : Bool := f.escaped || !f.breaks.isEmpty

/-- Adds a blank, which counts only on the line of the text. -/
def pushBlank (f : Folded) (c : Char) : Folded :=
  if f.atLineStart then f else { f with blanks := c :: f.blanks }

/-- Adds a line break. -/
def pushBreak (f : Folded) (c : Char) : Folded :=
  { f with blanks := [], breaks := c :: f.breaks }

/-- Adds an escaped line break. -/
def pushEscapedBreak (f : Folded) : Folded := { f.flush with escaped := true }

/-- Whether blanks or line breaks are pending. -/
def isPending (f : Folded) : Bool := f.atLineStart || !f.blanks.isEmpty

/-- The text, without what is pending. -/
def text (f : Folded) : String := String.ofList f.reversed.reverse

end Folded

/-! ## Plain scalars -/

/-- The characters that mean something in brackets. -/
def flowIndicators : List Char := [',', '[', ']', '\x7b', '\x7d']

/-- Whether a plain scalar may start here.  Indicators may not start one, except for a hyphen
and, outside of brackets, a question mark or colon that something follows. -/
def startsPlain (inFlow : Bool) : List Placed → Bool
  | [] => false
  | p :: rest =>
    if p.char = '-' then !startsBlank rest
    else if p.char = '?' || p.char = ':' then !inFlow && !startsBlank rest
    else !(",[]\x7b\x7d#&*!|>'\"%@`".toList.contains p.char) && !startsBlank [p]

/-- Reads a plain scalar.  Outside of brackets its later lines start in column `least` or to
the right of it.  What follows the scalar on its last line and the line breaks after it stay
pending. -/
def readPlain (inFlow : Bool) (least : Nat) (f : Folded) :
    List Placed → Option (Folded × List Placed)
  | [] => some (f, [])
  | p :: rest =>
    if p.isBreak then readPlain inFlow least (f.pushBreak p.char) rest
    else if p.isBlank then
      -- a tab is no indentation
      if f.atLineStart && p.char = '\t' && p.column < least then none
      else readPlain inFlow least (f.pushBlank p.char) rest
    else if f.isPending && p.char = '#' then some (f, p :: rest)
    else if f.atLineStart && !inFlow && p.column < least then some (f, p :: rest)
    else if startsDocumentMarker (p :: rest) then some (f, p :: rest)
    else if p.char = ':' && startsBlank rest then some (f, p :: rest)
    else if inFlow && flowIndicators.contains p.char then some (f, p :: rest)
    else if inFlow && p.char = ':' && startsWithOneOf ('?' :: flowIndicators) rest then none
    else readPlain inFlow least (f.push p.char) rest

/-! ## Quoted scalars -/

/-- Reads a single-quoted scalar after its opening quote; a quote in it is written twice. -/
def readSingle (f : Folded) : List Placed → Option (String × List Placed)
  | [] => none
  | p :: rest =>
    if p.char = '\x27' then
      match rest with
      | [] => some (f.flush.text, [])
      | q :: after =>
        if q.char = '\x27' then readSingle (f.push '\x27') after
        else some (f.flush.text, q :: after)
    else if p.isBreak then readSingle (f.pushBreak p.char) rest
    else if p.isBlank then readSingle (f.pushBlank p.char) rest
    else if startsDocumentMarker (p :: rest) then none
    else readSingle (f.push p.char) rest

/-- The character of an escape of one letter. -/
def letterEscape? (c : Char) : Option Char :=
  match c with
  | '0' => some '\x00'
  | 'a' => some '\x07'
  | 'b' => some '\x08'
  | 't' => some '\t'
  | '\t' => some '\t'
  | 'n' => some '\n'
  | 'v' => some '\x0b'
  | 'f' => some '\x0c'
  | 'r' => some '\r'
  | 'e' => some '\x1b'
  | ' ' => some ' '
  | '"' => some '"'
  | '/' => some '/'
  | '\\' => some '\\'
  | 'N' => some '\u0085'
  | '_' => some '\u00a0'
  | 'L' => some '\u2028'
  | 'P' => some '\u2029'
  | _ => none

/-- The character of a code point in hexadecimal digits. -/
def codeEscape? (digits : List Placed) : Option Char := do
  let values ← digits.mapM fun p => Text.hexValue? p.char
  let code := values.foldl (fun code value => code * 16 + value) 0
  if code.isValidChar then some (Char.ofNat code) else none

/-- Reads a double-quoted scalar after its opening quote. -/
def readDouble (f : Folded) : List Placed → Option (String × List Placed)
  | [] => none
  | p :: rest =>
    if p.char = '"' then some (f.flush.text, rest)
    else if p.char = '\\' then
      match rest with
      | [] => none
      | e :: after =>
        if e.isBreak then readDouble f.pushEscapedBreak after
        else
          match e.char, after with
          | 'x', a :: b :: after => do
            let c ← codeEscape? [a, b]
            readDouble (f.push c) after
          | 'u', a :: b :: c :: d :: after => do
            let c ← codeEscape? [a, b, c, d]
            readDouble (f.push c) after
          | 'U', a :: b :: c :: d :: e :: g :: h :: i :: after => do
            let c ← codeEscape? [a, b, c, d, e, g, h, i]
            readDouble (f.push c) after
          | letter, after => do
            let c ← letterEscape? letter
            readDouble (f.push c) after
    else if p.isBreak then readDouble (f.pushBreak p.char) rest
    else if p.isBlank then readDouble (f.pushBlank p.char) rest
    else if startsDocumentMarker (p :: rest) then none
    else readDouble (f.push p.char) rest

end SchemaQuery.Yaml
