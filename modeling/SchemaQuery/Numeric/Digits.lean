/-!
# Decimal digits

A natural number as the list of its decimal digits, most significant first, and back.

## Main definitions

* `digitsOf` - the digits of a number, without leading zeros; zero has the one digit 0.
* `ofDigits` - the number a list of digits stands for.
* `digitChar`, `digitValue?` - a digit and its character.

## Main statements

* `ofDigits_digitsOf` - the digits of a number stand for it.
-/

namespace SchemaQuery.Numeric

/-- The decimal digits of a number, most significant first. -/
def digitsOf (n : Nat) : List Nat :=
  if n < 10 then [n] else digitsOf (n / 10) ++ [n % 10]

/-- The number that a list of decimal digits stands for, most significant digit first. -/
def ofDigits (digits : List Nat) : Nat :=
  digits.foldl (fun n d => 10 * n + d) 0

/-- The character of a digit below ten. -/
def digitChar (d : Nat) : Char := Char.ofNat (0x30 + d)

/-- The digit a character stands for, if it is one of the ten ASCII digits. -/
def digitValue? (c : Char) : Option Nat :=
  if 0x30 ≤ c.toNat ∧ c.toNat ≤ 0x39 then some (c.toNat - 0x30) else none

/-- A natural number in decimal. -/
def decimalText (n : Nat) : List Char := (digitsOf n).map digitChar

/-- An integer in decimal, with a minus sign when negative. -/
def intText (i : Int) : List Char :=
  if i < 0 then '-' :: decimalText i.natAbs else decimalText i.natAbs

theorem ofDigits_append (xs : List Nat) (d : Nat) :
    ofDigits (xs ++ [d]) = 10 * ofDigits xs + d := by
  simp [ofDigits]

@[simp] theorem ofDigits_digitsOf (n : Nat) : ofDigits (digitsOf n) = n := by
  fun_induction digitsOf n with
  | case1 n => simp [ofDigits]
  | case2 n _ ih => rw [ofDigits_append, ih]; omega

theorem digitsOf_lt_ten (n : Nat) : ∀ d ∈ digitsOf n, d < 10 := by
  fun_induction digitsOf n with
  | case1 n h => simpa using h
  | case2 n _ ih =>
    intro d mem
    rcases List.mem_append.1 mem with mem | mem
    · exact ih d mem
    · rw [List.mem_singleton.1 mem]; exact Nat.mod_lt _ (by decide)

theorem digitsOf_ne_nil (n : Nat) : digitsOf n ≠ [] := by
  rw [digitsOf]; split <;> simp

end SchemaQuery.Numeric
