/-!
# UTF-8

Bytes that come from outside need not be UTF-8.  They are read as a sequence of characters and
of stray bytes that belong to none.

## Main definitions

* `Symbol` - a character or a stray byte.
* `symbols` - the symbols of a byte sequence.
* `decode?` - the text of a byte sequence without stray bytes.
-/

namespace SchemaQuery.Text

/-- A character, or a byte that belongs to no character. -/
inductive Symbol where
  | char (c : Char)
  | stray (byte : UInt8)
  deriving DecidableEq, Repr

/-- The number of continuation bytes that a first byte announces. -/
def continuationCount? (first : UInt8) : Option Nat :=
  if first < 0x80 then some 0
  else if 0xc2 ≤ first ∧ first < 0xe0 then some 1
  else if 0xe0 ≤ first ∧ first < 0xf0 then some 2
  else if 0xf0 ≤ first ∧ first < 0xf5 then some 3
  else none

/-- The least code point that may be written with this many continuation bytes. -/
def leastCode : (continuations : Nat) → Nat
  | 0 => 0
  | 1 => 0x80
  | 2 => 0x800
  | _ => 0x10000

/-- The bits of a code point that stand in its first byte. -/
def leadBits (first : UInt8) : (continuations : Nat) → Nat
  | 0 => first.toNat
  | 1 => first.toNat % 0x20
  | 2 => first.toNat % 0x10
  | _ => first.toNat % 0x08

/-- The character that starts a byte sequence, and how many bytes after the first belong to
it. -/
def firstChar? (first : UInt8) (rest : List UInt8) : Option (Char × Nat) := do
  let count ← continuationCount? first
  let more := rest.take count
  let code := more.foldl (fun code byte => code * 0x40 + byte.toNat % 0x40) (leadBits first count)
  if more.length = count ∧ more.all (fun byte => 0x80 ≤ byte && byte < 0xc0)
      ∧ leastCode count ≤ code ∧ code.isValidChar then
    return (Char.ofNat code, count)
  else none

/-- The symbols of a byte sequence. -/
def symbols : List UInt8 → List Symbol
  | [] => []
  | first :: rest =>
    match firstChar? first rest with
    | some (c, count) => .char c :: symbols (rest.drop count)
    | none => .stray first :: symbols rest
termination_by bytes => bytes.length
decreasing_by
  · simp only [List.length_drop, List.length_cons]; omega
  · simp

/-- The character that a symbol is, if it is one. -/
def Symbol.char? : Symbol → Option Char
  | char c => some c
  | stray _ => none

/-- The text of a byte sequence; `none` if a byte belongs to no character. -/
def decode? (bytes : List UInt8) : Option String :=
  ((symbols bytes).mapM Symbol.char?).map String.ofList

end SchemaQuery.Text
