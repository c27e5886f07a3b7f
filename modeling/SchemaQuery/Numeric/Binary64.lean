import SchemaQuery.Numeric.Decimal

/-!
# Finite double-precision numbers

`Binary64` holds the finite binary64 numbers exactly: a sign, an integer significand and a
power of two.  Arithmetic and conversion compute in whole numbers and round once, to the
nearest number and on a tie to the even significand, so nothing here depends on floating-point
hardware.

## Main definitions

* `Binary64` - a finite number in its one normal form.
* `Binary64.ofRatio?` - the number nearest to a fraction, unless that is out of range.
* `Binary64.ofDecimal?` - the number nearest to a decimal.
* `Binary64.steps` - the number as a multiple of the smallest positive one, which orders and
  adds exactly.
* `Binary64.add?`, `Binary64.mul?`, `Binary64.div?` - correctly rounded arithmetic.
-/

namespace SchemaQuery.Numeric

/-- The normal forms of `significand * 2 ^ exponent`: a full 53-bit significand, or the least
exponent with a shorter one. -/
def NormalForm (significand : Nat) (exponent : Int) : Prop :=
  (significand < Nat.pow 2 52 ∧ exponent = -1074) ∨
    (Nat.pow 2 52 ≤ significand ∧ significand < Nat.pow 2 53 ∧
      -1074 ≤ exponent ∧ exponent ≤ 971)

instance (significand : Nat) (exponent : Int) : Decidable (NormalForm significand exponent) := by
  unfold NormalForm; infer_instance

/-- A finite binary64 number `± significand * 2 ^ exponent`.  Zero has both signs. -/
structure Binary64 where
  negative : Bool
  significand : Nat
  exponent : Int
  normal : NormalForm significand exponent
  deriving DecidableEq

/-- The integer nearest to `num / den`; a tie goes to the even one. -/
def roundHalfEven (num den : Nat) : Nat :=
  let quotient := num / den
  let twice := 2 * (num % den)
  if twice < den then quotient
  else if den < twice then quotient + 1
  else quotient + quotient % 2

namespace Binary64

/-- Zero with the given sign. -/
def zero (negative : Bool) : Binary64 := ⟨negative, 0, -1074, by decide⟩

/-- The number with these parts, if they are in normal form. -/
def ofParts? (negative : Bool) (significand : Nat) (exponent : Int) : Option Binary64 :=
  if normal : NormalForm significand exponent then
    some ⟨negative, significand, exponent, normal⟩
  else none

/-- `num / den` in units of `2 ^ exponent`, again as a fraction. -/
def inUnits (num den : Nat) (exponent : Int) : Nat × Nat :=
  (num * Nat.pow 2 (-exponent).toNat, den * Nat.pow 2 exponent.toNat)

/-- The exponent at which the positive fraction `num / den` has a 53-bit significand, but never
less than that of the smallest numbers. -/
def exponentFor (num den : Nat) : Int :=
  let estimate : Int := (num.log2 : Int) - (den.log2 : Int) - 52
  -- the two logarithms lose less than one each, so the estimate is at most one too high
  let scaled := inUnits num den estimate
  max (-1074) (if scaled.1 < Nat.pow 2 52 * scaled.2 then estimate - 1 else estimate)

/-- The number nearest to `± num / den`, a tie going to the even significand; `none` if it is
larger than every finite number. -/
def ofRatio? (negative : Bool) (num den : Nat) : Option Binary64 :=
  if num = 0 then some (zero negative)
  else
    let exponent := exponentFor num den
    let scaled := inUnits num den exponent
    let significand := roundHalfEven scaled.1 scaled.2
    -- rounding up can reach the next power of two
    if significand = Nat.pow 2 53 then ofParts? negative (Nat.pow 2 52) (exponent + 1)
    else ofParts? negative significand exponent

/-- The number nearest to a decimal.  Powers of ten far outside the range are decided without
computing them: from `10 ^ 310` on nothing is finite, and below half of the smallest number
everything is zero. -/
def ofDecimal? (negative : Bool) (x : Decimal) : Option Binary64 :=
  let x := x.trim
  if x.significand = 0 then some (zero negative)
  else if 310 < x.power then none
  else if 3 * x.power + x.significand.log2 < -1080 then some (zero negative)
  else ofRatio? negative x.num x.den

/-- The number as a multiple of `2 ^ (-1074)`, the smallest positive one. -/
def steps (x : Binary64) : Int :=
  let magnitude := x.significand * Nat.pow 2 (x.exponent + 1074).toNat
  if x.negative then -magnitude else magnitude

/-- Order by value; the two zeros are equal. -/
def le (x y : Binary64) : Bool := decide (x.steps ≤ y.steps)

/-- The sum, rounded once; `none` if it is larger than every finite number.  A sum of zero is
negative only when both summands are. -/
def add? (x y : Binary64) : Option Binary64 :=
  let sum := x.steps + y.steps
  let negative := if sum = 0 then x.negative && y.negative else decide (sum < 0)
  ofRatio? negative sum.natAbs (Nat.pow 2 1074)

/-- The magnitude as a fraction. -/
def ratio (x : Binary64) : Nat × Nat :=
  (x.significand * Nat.pow 2 x.exponent.toNat, Nat.pow 2 (-x.exponent).toNat)

/-- The product, rounded once; `none` if it is larger than every finite number. -/
def mul? (x y : Binary64) : Option Binary64 :=
  ofRatio? (x.negative != y.negative) (x.ratio.1 * y.ratio.1) (x.ratio.2 * y.ratio.2)

/-- The quotient, rounded once; `none` if it is larger than every finite number or the divisor
is zero. -/
def div? (x y : Binary64) : Option Binary64 :=
  if y.significand = 0 then none
  else ofRatio? (x.negative != y.negative) (x.ratio.1 * y.ratio.2) (x.ratio.2 * y.ratio.1)

end Binary64

end SchemaQuery.Numeric
