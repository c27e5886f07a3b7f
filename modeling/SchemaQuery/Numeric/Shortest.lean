import SchemaQuery.Numeric.Binary64

/-!
# The shortest decimal that reads back

A number is written with the fewest digits from which `Binary64.ofDecimal?` recovers it, and
among the decimals with that many digits by the one nearest to it.  The search goes through
the powers of ten from the largest down; on each grid only the two neighbours of the number
can be nearest.

## Main definitions

* `TieRule` - which neighbour is taken when both are equally near.
* `Binary64.shortest` - the decimal.

## Design notes

Seventeen digits always suffice, so the search ends long before its last candidate.  That last
candidate is the exact value, which keeps the function total without a bound on the digits.
-/

namespace SchemaQuery.Numeric

/-- Which of two equally near decimals is taken: the one with the even last digit, or the
larger one. -/
inductive TieRule where
  | toEven
  | up
  deriving DecidableEq, Repr

/-- The power of ten below `10 ^ (log2 x + 1)`, an upper bound for the decimal exponent of a
fraction. -/
def decimalBound (num den : Nat) : Int :=
  ((num.log2 : Int) - (den.log2 : Int) + 1) * 30103 / 100000 + 1

namespace Binary64

/-- Whether a decimal magnitude reads as this number, its sign added. -/
def readsBack (x : Binary64) (d : Decimal) : Bool := ofDecimal? x.negative d == some x

/-- On the grid of multiples of `10 ^ power`, the neighbour of the number that reads back as
it, the nearer one if both do. -/
def onGrid? (tie : TieRule) (x : Binary64) (power : Int) : Option Decimal :=
  let num := x.ratio.1 * Nat.pow 10 (-power).toNat
  let den := x.ratio.2 * Nat.pow 10 power.toNat
  let low := num / den
  let below : Decimal := ⟨low, power⟩
  let above : Decimal := ⟨low + 1, power⟩
  let twice := 2 * (num % den)
  let lowFirst := twice < den ∨ (twice = den ∧ tie = .toEven ∧ low % 2 = 0)
  -- the nearer neighbour first, so that it wins when both read back
  if lowFirst then [below, above].find? x.readsBack else [above, below].find? x.readsBack

/-- The exact value of the magnitude as a decimal. -/
def exactDecimal (x : Binary64) : Decimal :=
  if 0 ≤ x.exponent then ⟨x.significand * Nat.pow 2 x.exponent.toNat, 0⟩
  else ⟨x.significand * Nat.pow 5 (-x.exponent).toNat, x.exponent⟩

/-- The shortest decimal that reads back as the number, without trailing zeros. -/
def shortest (tie : TieRule) (x : Binary64) : Decimal :=
  let bound := decimalBound x.ratio.1 x.ratio.2
  let grids := (List.range 20).map fun (i : Nat) => bound - i
  ((grids.findSome? (x.onGrid? tie)).getD x.exactDecimal).trim

end Binary64

end SchemaQuery.Numeric
