import SchemaQuery.Numeric.Shortest

/-!
# Writing numbers

How the digits of a number are laid out.  Data documents switch to an exponent outside a middle
range and always show that a number is not whole by a fraction; measurements are written out in
full, and whole ones without a point.

## Main definitions

* `Binary64.dataText` - the form in data documents and messages about them.
* `Binary64.plainText` - the form in measurements.
-/

namespace SchemaQuery.Numeric

/-- `n` zeros. -/
def zeros (n : Nat) : List Char := List.replicate n '0'

namespace Decimal

/-- A decimal written out in full, with no more digits than it needs. -/
def positional (x : Decimal) : List Char :=
  let digits := decimalText x.significand
  let point : Int := digits.length + x.power
  if 0 ≤ x.power then digits ++ zeros x.power.toNat
  else if 0 < point then digits.take point.toNat ++ '.' :: digits.drop point.toNat
  else '0' :: '.' :: zeros (-point).toNat ++ digits

/-- A decimal written with one digit before the point and an exponent that shows its sign. -/
def scientific (x : Decimal) : List Char :=
  let digits := decimalText x.significand
  let exponent : Int := digits.length + x.power - 1
  let mantissa :=
    match digits with
    | first :: second :: rest => first :: '.' :: second :: rest
    | short => short
  mantissa ++ 'e' :: (if exponent < 0 then '-' else '+') :: decimalText exponent.natAbs

end Decimal

namespace Binary64

/-- The minus sign of a negative number. -/
def sign (x : Binary64) : List Char := if x.negative then ['-'] else []

/-- The form in data documents: positional with a fraction from `0.00001` up to `10 ^ 16`, and
with an exponent outside that range.  A tie between shortest decimals goes to the even
digit. -/
def dataText (x : Binary64) : List Char :=
  let decimal := x.shortest .toEven
  let exponent : Int := (decimalText decimal.significand).length + decimal.power - 1
  let magnitude :=
    if decimal.significand = 0 then ['0', '.', '0']
    else if exponent < -5 ∨ 16 ≤ exponent then decimal.scientific
    else if 0 ≤ decimal.power then decimal.positional ++ ['.', '0']
    else decimal.positional
  x.sign ++ magnitude

/-- The form in measurements: written out in full, whole numbers without a point.  A tie
between shortest decimals goes up. -/
def plainText (x : Binary64) : List Char := x.sign ++ (x.shortest .up).positional

end Binary64

end SchemaQuery.Numeric
