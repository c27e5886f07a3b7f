import SchemaQuery.Numeric.Digits

/-!
# Decimal numbers

`Decimal` is a number written as an integer significand times a power of ten.  Several pairs
stand for the same number; `Decimal.trim` picks the one whose significand does not end in zero,
so that `1.50`, `1.5` and `15e-1` are told apart by nothing that follows.

## Main definitions

* `Decimal` - a significand and a power of ten.
* `Decimal.trim` - the same number with no trailing zero in its significand.
-/

namespace SchemaQuery.Numeric

/-- The nonnegative number `significand * 10 ^ power`. -/
structure Decimal where
  significand : Nat
  power : Int
  deriving DecidableEq, Repr

namespace Decimal

/-- Moves the trailing zeros of a positive significand into the power of ten. -/
def trimZeros (significand : Nat) (power : Int) : Decimal :=
  if significand ≠ 0 ∧ significand % 10 = 0 then trimZeros (significand / 10) (power + 1)
  else ⟨significand, power⟩
termination_by significand

/-- The same number without trailing zeros in the significand; zero is `0 * 10 ^ 0`. -/
def trim (x : Decimal) : Decimal :=
  if x.significand = 0 then ⟨0, 0⟩ else trimZeros x.significand x.power

/-- A factor of ten in the significand is a step of the power. -/
theorem trim_ten_mul (n : Nat) (p : Int) : trim ⟨10 * n, p⟩ = trim ⟨n, p + 1⟩ := by
  by_cases zero : n = 0
  · simp [trim, zero]
  · have pos : 10 * n ≠ 0 := by omega
    simp only [trim, pos, zero, if_false]
    rw [trimZeros, if_pos ⟨pos, by omega⟩, Nat.mul_div_cancel_left n (by decide)]

/-- The fraction `num / den` that the decimal stands for; the denominator is positive. -/
def num (x : Decimal) : Nat := x.significand * Nat.pow 10 x.power.toNat

/-- The denominator that goes with `Decimal.num`. -/
def den (x : Decimal) : Nat := Nat.pow 10 (-x.power).toNat

end Decimal

end SchemaQuery.Numeric
