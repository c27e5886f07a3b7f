import SchemaQuery.Yaml.Block
import SchemaQuery.Yaml.Property
import SchemaQuery.Yaml.Scalar

/-!
# From characters to tokens

The tokens of a YAML text.  Most can be read off the text where they stand.  Two kinds cannot:
the start and the end of a block collection follow from the columns of what is in it, and that
a node is a key shows only at the colon after it.

## Main definitions

* `PossibleKey` - a place where a key without a question mark may have started.
* `Lexer` - the tokens so far and what the reading of the next one depends on.
* `Lexer.step` - reads one token.
* `tokens?` - the tokens of a text.

## Design notes

Outside of brackets the lexer keeps the columns of the open block collections.  A token to the
left of them closes them, and an entry to the right of them opens a new one.  A node that may
be a key is remembered by the number of tokens before it; when a colon follows, the tokens
that make it a key are put in there.  A key is forgotten after its line and after `maxKeySize`
bytes.
-/

namespace SchemaQuery.Yaml

/-- A place where a key may have started. -/
structure PossibleKey where
  start : Placed
  /-- The number of tokens before it. -/
  number : Nat
  /-- Whether nothing but a key can stand there. -/
  required : Bool

/-- How far a colon may be from the start of its key, in bytes. -/
def maxKeySize : Nat := 1024

/-- What was read so far. -/
structure Lexer where
  tokens : Array Token := #[]
  /-- The columns of the open block collections, the innermost one first. -/
  columns : List Nat := []
  /-- The place where a key may have started, inside the innermost bracket. -/
  key : Option PossibleKey := none
  /-- The same for the text around each open bracket, the innermost one first. -/
  outer : List (Option PossibleKey) := []
  /-- Whether a key may start at the next token. -/
  keyAllowed : Bool := true

namespace Lexer

/-- Whether a bracket is open. -/
def inFlow (s : Lexer) : Bool := !s.outer.isEmpty

/-- The least column to the right of the innermost block collection. -/
def least (s : Lexer) : Nat :=
  match s.columns with
  | [] => 0
  | column :: _ => column + 1

/-- Adds a token. -/
def push (s : Lexer) (t : Token) : Lexer := { s with tokens := s.tokens.push t }

/-- Adds a token and says whether a key may follow it. -/
def pushThen (s : Lexer) (t : Token) (keyAllowed : Bool) : Lexer :=
  { s.push t with keyAllowed }

/-! ### Keys -/

/-- Gives up the place where a key may have started; none if there has to be one. -/
def forgetKey (s : Lexer) : Option Lexer :=
  match s.key with
  | some key => if key.required then none else some { s with key := none }
  | none => some s

/-- Remembers that a key may start here.  It has to, if the column is that of a block
collection. -/
def rememberKey (s : Lexer) (p : Placed) : Option Lexer :=
  if s.keyAllowed then do
    let s ← s.forgetKey
    let required := !s.inFlow && s.columns.head? = some p.column
    return { s with key := some ⟨p, s.tokens.size, required⟩ }
  else some s

/-- Gives up a key that is too far from the next token. -/
def forgetStaleKey (s : Lexer) (p : Placed) : Option Lexer :=
  match s.key with
  | some key =>
    if key.start.line < p.line || key.start.offset + maxKeySize < p.offset then s.forgetKey
    else some s
  | none => some s

/-! ### Block collections -/

/-- Opens a block collection in a column, unless one is open there or the text is in brackets.
Its token comes before the token of the given number. -/
def openBlock (s : Lexer) (column : Nat) (t : Token) (number : Nat) : Lexer :=
  if s.inFlow || column < s.least then s
  else
    { s with columns := column :: s.columns, tokens := s.tokens.insertIdxIfInBounds number t }

/-- Closes the innermost block collections whose columns meet a condition. -/
def closeBlocks (s : Lexer) (condition : Nat → Bool) : Lexer :=
  if s.inFlow then s
  else
    let closed := (s.columns.takeWhile condition).length
    { s with
      tokens := s.tokens ++ Array.replicate closed Token.blockEnd
      columns := s.columns.dropWhile condition }

/-! ### Single tokens -/

/-- A marker between documents, or a directive: it ends all block collections. -/
def boundary (s : Lexer) (t : Token) : Option Lexer := do
  let s ← (s.closeBlocks fun _ => true).forgetKey
  return s.pushThen t false

/-- An opening bracket. -/
def openFlow (s : Lexer) (p : Placed) (t : Token) : Option Lexer := do
  let s ← s.rememberKey p
  return { s.pushThen t true with key := none, outer := s.key :: s.outer }

/-- A closing bracket. -/
def closeFlow (s : Lexer) (t : Token) : Option Lexer := do
  let s ← s.forgetKey
  let s := s.pushThen t false
  match s.outer with
  | [] => return s
  | key :: outer => return { s with key, outer }

/-- A comma in brackets. -/
def flowEntry (s : Lexer) : Option Lexer := do
  let s ← s.forgetKey
  return s.pushThen .flowEntry true

/-- A hyphen before an entry. -/
def blockEntry (s : Lexer) (p : Placed) : Option Lexer :=
  if !s.inFlow && !s.keyAllowed then none
  else do
    let s ← (s.openBlock p.column .blockSequenceStart s.tokens.size).forgetKey
    return s.pushThen .blockEntry true

/-- A question mark before a key. -/
def explicitKey (s : Lexer) (p : Placed) : Option Lexer :=
  if !s.inFlow && !s.keyAllowed then none
  else do
    let s ← (s.openBlock p.column .blockMappingStart s.tokens.size).forgetKey
    return s.pushThen .key (!s.inFlow)

/-- A colon before a value. -/
def value (s : Lexer) (p : Placed) : Option Lexer :=
  match s.key with
  | some key =>
    let s := { s with tokens := s.tokens.insertIdxIfInBounds key.number .key, key := none }
    some ((s.openBlock key.start.column .blockMappingStart key.number).pushThen .value false)
  | none =>
    if !s.inFlow && !s.keyAllowed then none
    else
      let s := s.openBlock p.column .blockMappingStart s.tokens.size
      some (s.pushThen .value (!s.inFlow))

/-- An anchor, an alias, a tag or a scalar on one line, any of which a key may start with. -/
def mayBeKey (s : Lexer) (p : Placed) (read : Option (Token × List Placed)) :
    Option (Lexer × List Placed) := do
  let s ← s.rememberKey p
  let (t, rest) ← read
  return (s.pushThen t false, rest)

/-- A block scalar. -/
def blockScalar (s : Lexer) (style : Style) (rest : List Placed) :
    Option (Lexer × List Placed) := do
  let s ← s.forgetKey
  let (text, rest) ← readBlock (style = .folded) s.least rest
  return (s.pushThen (.scalar style text) true, rest)

/-- A plain scalar.  If it ends with a line break, a key may follow it. -/
def plainScalar (s : Lexer) (p : Placed) (cs : List Placed) : Option (Lexer × List Placed) := do
  let s ← s.rememberKey p
  let (read, rest) ← readPlain s.inFlow s.least {} cs
  return (s.pushThen (.scalar .plain read.text) read.atLineStart, rest)

/-! ### Reading -/

/-- Reads the token that starts with a character. -/
def step (s : Lexer) (p : Placed) (rest : List Placed) : Option (Lexer × List Placed) :=
  let cs := p :: rest
  let withRest (s : Option Lexer) : Option (Lexer × List Placed) := s.map (·, rest)
  let standsAlone := s.inFlow || startsBlank rest
  let quoted : String × List Placed → Token × List Placed :=
    fun (text, rest) => (.scalar .quoted text, rest)
  if p.column = 0 && p.char = '%' then do
    let (t, rest) ← readDirective? rest
    return (← s.boundary t, rest)
  else if startsMarker '-' cs then (s.boundary .documentStart).map (·, cs.drop 3)
  else if startsMarker '.' cs then (s.boundary .documentEnd).map (·, cs.drop 3)
  else
    match p.char with
    | '[' => withRest (s.openFlow p .flowSequenceStart)
    | '\x7b' => withRest (s.openFlow p .flowMappingStart)
    | ']' => withRest (s.closeFlow .flowSequenceEnd)
    | '\x7d' => withRest (s.closeFlow .flowMappingEnd)
    | ',' => withRest s.flowEntry
    | '*' => s.mayBeKey p ((readName? rest).map fun (name, rest) => (.reference name, rest))
    | '&' => s.mayBeKey p ((readName? rest).map fun (name, rest) => (.anchor name, rest))
    | '!' => s.mayBeKey p (readTag? s.inFlow rest)
    | '\x27' => s.mayBeKey p ((readSingle {} rest).map quoted)
    | '"' => s.mayBeKey p ((readDouble {} rest).map quoted)
    | c =>
      if c = '-' && startsBlank rest then withRest (s.blockEntry p)
      else if c = '?' && standsAlone then withRest (s.explicitKey p)
      else if c = ':' && standsAlone then withRest (s.value p)
      else if c = '|' && !s.inFlow then s.blockScalar .literal rest
      else if c = '>' && !s.inFlow then s.blockScalar .folded rest
      else if startsPlain s.inFlow cs then s.plainScalar p cs
      else none

/-- Ends the reading: all block collections are closed, and no key is missing. -/
def finish (s : Lexer) : Option (List Token) := do
  let s ← (s.closeBlocks fun _ => true).forgetKey
  return s.tokens.toList

end Lexer

/-- Goes past blanks, comments and line breaks; says whether a line break was among them.  Tabs
count as blanks while `tabs` holds, which outside of brackets ends with the line. -/
def toToken (inFlow : Bool) : (tabs crossed comment : Bool) → List Placed → Bool × List Placed
  | _, crossed, _, [] => (crossed, [])
  | tabs, crossed, comment, p :: rest =>
    if p.isBreak then toToken inFlow inFlow true false rest
    else if comment then toToken inFlow tabs crossed true rest
    else if p.column = 0 && p.char = byteOrderMark then toToken inFlow tabs crossed false rest
    else if p.char = ' ' || (tabs && p.char = '\t') then toToken inFlow tabs crossed false rest
    else if p.char = '#' then toToken inFlow tabs crossed true rest
    else (crossed, p :: rest)

/-- Reads all tokens.  Every step takes at least one character, so one more than their number
is enough. -/
def readTokens : Nat → Lexer → List Placed → Option (List Token)
  | 0, _, _ => none
  | fuel + 1, s, cs =>
    let (crossed, cs) := toToken s.inFlow (s.inFlow || !s.keyAllowed) false false cs
    -- outside of brackets a key may start on a new line
    let s := if crossed && !s.inFlow then { s with keyAllowed := true } else s
    match cs with
    | [] => s.finish
    | p :: rest => do
      let s ← s.forgetStaleKey p
      let (s, rest) ← (s.closeBlocks fun column => p.column < column).step p rest
      readTokens fuel s rest

/-- The tokens of a text. -/
def tokens? (cs : List Placed) : Option (List Token) := readTokens (cs.length + 1) {} cs

end SchemaQuery.Yaml
