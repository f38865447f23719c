import SolidModel.Numeral.Decimal

/-!
# Numbers with a set number of digits

`fixed` writes a double with a set number of places after the point, `scientific` with one digit
before the point, a set number after it and a power of ten. Both round the exact value once, a
half to the even neighbour.
-/

namespace SolidModel.Numeral

/-- The texts of what is not finite; a finite value is written by `write`. -/
def Double.text (x : Double) (write : Binary → String) : String :=
  match x with
  | .nan => "nan"
  | .infinite negative => if negative then "-inf" else "inf"
  | .finite b => write b

/-- The magnitude of `b` with `places` digits after the point. -/
def Binary.fixed (places : Nat) (b : Binary) : String :=
  let units := roundDiv (b.numerator * 10 ^ places) b.denominator
  Nat.repr (units / 10 ^ places) ++ "." ++ padded places (units % 10 ^ places)

/-- The magnitude of `b` as one digit, `places` more after the point, and a power of ten. -/
def Binary.scientific (places : Nat) (b : Binary) : String :=
  if b.mantissa = 0 then "0." ++ padded places 0 ++ exponentText 0
  else
    let k := decimalExponent b.numerator b.denominator
    let (n, d) := inUnits b.numerator b.denominator (k - places)
    let units := roundDiv n d
    if units < 10 ^ (places + 1) then pointed (Nat.repr units) ++ exponentText k
    else pointed (Nat.repr (units / 10)) ++ exponentText (k + 1)

/-- A minus sign in front of the negative. -/
def Binary.signed (b : Binary) (magnitude : String) : String :=
  if b.negative then "-" ++ magnitude else magnitude

/-- `x` with `places` digits after the point. -/
def fixed (places : Nat) (x : Float) : String :=
  (Double.ofFloat x).text fun b => b.signed (b.fixed places)

/-- `x` with `places` digits after the first and a power of ten. -/
def scientific (places : Nat) (x : Float) : String :=
  (Double.ofFloat x).text fun b => b.signed (b.scientific places)

end SolidModel.Numeral
