import SchemaQuery.Numeric.Scaling

/-!
# JSON documents as written

A `Document` is what the grammar of JSON finds in a text, before anyone asks what it means:
every member in the order it was written, repeated keys included, numerals digit by digit, and
strings that may name no text.  A reader of a particular shape looks only at the parts it
needs, so a numeral that is too large or a broken surrogate pair does no harm in a member that
nobody reads.

## Main definitions

* `Numeral`, `Number` - a number as written, and its value.
* `Document` - the tree.
* `Document.depth` - how many arrays and objects are nested in one another.
* `Document.isDecodable` - whether every part of the tree has a value.
-/

namespace SchemaQuery.Json

open Numeric (Binary64 Decimal appendDigits digitsOf)

/-- A number as written: sign, whole part, the digits after the point (none without a point)
and the exponent. -/
structure Numeral where
  negative : Bool
  whole : Nat
  fraction : List Nat
  exponent : Option Int
  deriving DecidableEq, Repr

/-- The value of a number: an integer or a finite double. -/
inductive Number where
  | int (value : Int)
  | float (value : Binary64)
  deriving DecidableEq

/-- An integer fits when 64 bits hold it, signed or unsigned. -/
def Number.Fits : Number → Prop
  | .int value => Int64.minValue.toInt ≤ value ∧ value < UInt64.size
  | .float _ => True

instance (n : Number) : Decidable n.Fits := by
  cases n <;> unfold Number.Fits <;> infer_instance

namespace Numeral

/-- The magnitude as a decimal with a significand that 64 bits hold.  Digits for which there
is no room are dropped: of the whole part each one dropped counts in the power of ten, and
what follows the point then continues the significand. -/
def magnitude (n : Numeral) : Decimal :=
  let (whole, dropped) := appendDigits 0 (digitsOf n.whole)
  let (significand, ignored) := appendDigits whole n.fraction
  let places : Int := n.fraction.length - ignored.length
  ⟨significand, n.exponent.getD 0 + dropped.length - places⟩

/-- The value as a double, if it is in range. -/
def float? (n : Numeral) : Option Number :=
  (Binary64.ofScaled? n.negative n.magnitude).map .float

/-- The integer that a numeral without fraction and exponent stands for. -/
def signed (n : Numeral) : Int := if n.negative then -n.whole else n.whole

/-- Whether a numeral is written as an integer.  `-0` is not: it keeps its sign as a double. -/
def IsInteger (n : Numeral) : Prop :=
  n.fraction = [] ∧ n.exponent = none ∧ ¬(n.negative ∧ n.whole = 0)

instance (n : Numeral) : Decidable n.IsInteger := by unfold IsInteger; infer_instance

/-- The value of a numeral: the integer if it is written as one and 64 bits hold it, and a
double otherwise.  A numeral beyond the doubles has no value. -/
def value? (n : Numeral) : Option Number :=
  if n.IsInteger ∧ (Number.int n.signed).Fits then some (.int n.signed) else n.float?

/-- An integer that a numeral stands for fits 64 bits. -/
theorem fits_of_value? {n : Numeral} {v : Number} (h : n.value? = some v) : v.Fits := by
  unfold value? at h
  split at h
  · rename_i integer
    exact Option.some.inj h ▸ integer.2
  · obtain ⟨_, _, rfl⟩ := Option.map_eq_some_iff.1 h
    trivial

end Numeral

/-- A parsed JSON text.  A string is `none` when one of its escapes is half of a surrogate pair
without the other half; such a string names no text. -/
inductive Document where
  | null
  | bool (value : Bool)
  | number (value : Numeral)
  | text (value : Option String)
  | array (items : List Document)
  | object (members : List (Option String × Document))

namespace Document

mutual

/-- How many arrays and objects are nested in one another; an empty one counts. -/
def depth : Document → Nat
  | .array items => itemsDepth items + 1
  | .object members => membersDepth members + 1
  | _ => 0

/-- The greatest depth of the items of an array. -/
def itemsDepth : List Document → Nat
  | [] => 0
  | item :: rest => max item.depth (itemsDepth rest)

/-- The greatest depth of the members of an object. -/
def membersDepth : List (Option String × Document) → Nat
  | [] => 0
  | (_, value) :: rest => max value.depth (membersDepth rest)

end

mutual

/-- Whether every string in the tree names a text and every numeral has a value. -/
def isMeaningful : Document → Bool
  | .null => true
  | .bool _ => true
  | .number n => n.value?.isSome
  | .text s => s.isSome
  | .array items => areMeaningful items
  | .object members => membersMeaningful members

/-- `isMeaningful` of every item of an array. -/
def areMeaningful : List Document → Bool
  | [] => true
  | item :: rest => item.isMeaningful && areMeaningful rest

/-- `isMeaningful` of every member of an object, its key included. -/
def membersMeaningful : List (Option String × Document) → Bool
  | [] => true
  | (key, value) :: rest => key.isSome && value.isMeaningful && membersMeaningful rest

end

/-- The number of nested arrays and objects that a decoded text may have. -/
def maxDepth : Nat := 127

/-- Whether the tree can be read as a whole where `outer` arrays and objects are already
open. -/
def isDecodable (outer : Nat) (d : Document) : Bool :=
  d.isMeaningful && decide (outer + d.depth ≤ maxDepth)

end Document

end SchemaQuery.Json
