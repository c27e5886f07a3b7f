import SchemaQuery.Numeric.Binary64

/-!
# Decimals read in double precision

A decimal in a data document is not rounded as a whole.  Its leading digits are collected as
long as 64 bits hold them, the number so far is rounded to a double, and that is multiplied or
divided by a power of ten, itself a double.  Each step rounds, so the result can be a
neighbour of the nearest double: `9e47` is read as `9.000000000000001e47`.

## Main definitions

* `appendDigits` - as many digits as 64 bits hold, and the digits left over.
* `Binary64.tenTo?` - a power of ten.
* `Binary64.scale?` - a number times a power of ten, in double precision.
* `Binary64.ofScaled?` - a decimal read in this way.

## Design notes

Numbers are written so that the nearest double recovers them (`Binary64.shortest`).  A number
that was written so and is read in this way can therefore become its neighbour.
-/

namespace SchemaQuery.Numeric

/-- Appends decimal digits to a number up to the first with which 64 bits would not hold it;
also returns the digits from there on. -/
def appendDigits (n : Nat) : List Nat → Nat × List Nat
  | [] => (n, [])
  | d :: rest =>
    if 10 * n + d < UInt64.size then appendDigits (10 * n + d) rest else (n, d :: rest)

namespace Binary64

/-- The double nearest to a power of ten. -/
def tenTo? (n : Nat) : Option Binary64 := ofDecimal? false ⟨1, n⟩

/-- A number times a power of ten, rounded once. -/
def mulTen? (x : Binary64) (n : Nat) : Option Binary64 := (tenTo? n).bind x.mul?

/-- A number divided by a power of ten, rounded once. -/
def divTen? (x : Binary64) (n : Nat) : Option Binary64 := (tenTo? n).bind x.div?

/-- The greatest power of ten that is a finite double. -/
def greatestPower : Int := 308

/-- A number times `10 ^ power`; `none` if that is larger than every finite number.  A negative
power divides, in several steps if it is below the least power that one step can take. -/
def scale? (x : Binary64) (power : Int) : Option Binary64 :=
  if x.significand = 0 then some x
  else if greatestPower < power then none
  else if 0 ≤ power then x.mulTen? power.toNat
  else if -greatestPower ≤ power then x.divTen? (-power).toNat
  else do
    let y ← x.divTen? greatestPower.toNat
    scale? y (power + greatestPower)
termination_by (-power).toNat
decreasing_by
  have : greatestPower = 308 := rfl
  omega

/-- The double of a decimal: the significand as a double, scaled by the power of ten. -/
def ofScaled? (negative : Bool) (x : Decimal) : Option Binary64 :=
  (ofRatio? negative x.significand 1).bind (·.scale? x.power)

end Binary64

end SchemaQuery.Numeric
