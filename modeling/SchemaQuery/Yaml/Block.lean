import SchemaQuery.Numeric.Digits
import SchemaQuery.Yaml.Character

/-!
# Block scalars

A block scalar is the indented lines below its indicator.  A literal block keeps its lines; a
folded one joins two lines by a space where neither starts with a blank and no empty line is
between them.

## Main definitions

* `Line`, `Line.split` - the lines of a text.
* `Chomping`, `BlockHeader` - what the indicator says about the end and the indentation of a
  block.
* `blockText` - the text that lines stand for.
* `readBlock` - the reader.
-/

namespace SchemaQuery.Yaml

/-! ## Lines -/

/-- A line of a text and its line break, which the last line of a text does not have. -/
structure Line where
  content : List Char
  ending : Option Char
  deriving DecidableEq, Repr

namespace Line

/-- The lines of a text. -/
def split : List Placed → List Line
  | [] => [⟨[], none⟩]
  | p :: rest =>
    if p.isBreak then ⟨[], some p.char⟩ :: split rest
    else
      match split rest with
      | [] => [⟨[p.char], none⟩]
      | line :: lines => { line with content := p.char :: line.content } :: lines

/-- The characters of a line, its line break included. -/
def characters (line : Line) : List Char := line.content ++ line.ending.toList

/-- The number of characters of a line, its line break included. -/
def size (line : Line) : Nat := line.characters.length

/-- The number of spaces at the start of a line. -/
def indentation (line : Line) : Nat := (line.content.takeWhile (· = ' ')).length

end Line

/-! ## Headers -/

/-- What becomes of the line breaks at the end of a block scalar. -/
inductive Chomping where
  | strip
  | clip
  | keep
  deriving DecidableEq, Repr

/-- The header of a block scalar: how it ends and how far it is indented, if that is given. -/
structure BlockHeader where
  chomping : Chomping := .clip
  indentation : Option Nat := none

/-- Reads the header of a block scalar, its two parts in either order and each at most once. -/
def readHeader (h : BlockHeader) : List Placed → BlockHeader × List Placed
  | [] => (h, [])
  | p :: rest =>
    if p.char = '+' && h.chomping = .clip then readHeader { h with chomping := .keep } rest
    else if p.char = '-' && h.chomping = .clip then readHeader { h with chomping := .strip } rest
    else
      match h.indentation, Numeric.digitValue? p.char with
      | none, some (n + 1) => readHeader { h with indentation := some (n + 1) } rest
      | _, _ => (h, p :: rest)

/-! ## Indentation -/

/-- The indentation of a block: that of its first line with something else, or of a longer
empty line before it.  None if a tab stands where it ends. -/
def detectIndentation? (widest : Nat) : List Line → Option Nat
  | [] => some widest
  | line :: rest =>
    let widest := max widest line.indentation
    match line.content.drop line.indentation with
    | [] => if line.ending.isSome then detectIndentation? widest rest else some widest
    | c :: _ => if c = '\t' then none else some widest

/-- Takes the lines of a block with the given indentation, which is removed.  A line with
fewer spaces ends the block unless it is empty.  Also returns the number of characters taken,
among them the spaces before what ends the block.  None if a tab takes the place of
indentation. -/
def takeLines? (indentation : Nat) : List Line → Option (List Line × Nat)
  | [] => some ([], 0)
  | line :: rest =>
    let spaces := min indentation line.indentation
    match line.content.drop spaces with
    | [] =>
      if line.ending.isSome then
        (takeLines? indentation rest).map fun (lines, n) =>
          (⟨[], line.ending⟩ :: lines, line.size + n)
      else some ([], spaces)
    | c :: content =>
      if spaces = indentation then
        (takeLines? indentation rest).map fun (lines, n) =>
          (⟨c :: content, line.ending⟩ :: lines, line.size + n)
      else if c = '\t' then none
      else some ([], spaces)

/-! ## The text of a block -/

/-- The lines of a block joined.  `ending` is the line break of the last line with a content
and `indented` whether that line starts with a blank; `empty` are the breaks of the empty
lines after it, the last one first. -/
def joinLines (folded : Bool) (chomping : Chomping) (ending : List Char) (indented : Bool)
    (empty : List Char) : List Line → List Char
  | [] =>
    match chomping with
    | .strip => []
    | .clip => ending
    | .keep => ending ++ empty.reverse
  | ⟨[], lineBreak⟩ :: rest =>
    joinLines folded chomping ending indented (lineBreak.toList ++ empty) rest
  | ⟨c :: content, lineBreak⟩ :: rest =>
    let joint :=
      if folded && ending = ['\n'] && !indented && !isBlank c then
        if empty.isEmpty then [' '] else []
      else ending
    joint ++ empty.reverse ++ c :: content ++
      joinLines folded chomping lineBreak.toList (isBlank c) [] rest

/-- The text that the lines of a block stand for. -/
def blockText (folded : Bool) (chomping : Chomping) (lines : List Line) : String :=
  String.ofList (joinLines folded chomping [] false [] lines)

/-- Reads a block scalar after its indicator.  Its lines start in column `least` or to the
right of it, and never in the first column; an indentation that the header gives is counted
from the column before `least`. -/
def readBlock (folded : Bool) (least : Nat) (cs : List Placed) :
    Option (String × List Placed) := do
  let (header, rest) := readHeader {} cs
  let rest ← afterLine? rest
  let lines := Line.split rest
  let indentation ←
    match header.indentation with
    | some n => some (least - 1 + n)
    | none => (detectIndentation? 0 lines).map fun n => max (max n least) 1
  let (lines, size) ← takeLines? indentation lines
  return (blockText folded header.chomping lines, rest.drop size)

end SchemaQuery.Yaml
