import SolidModel.Numeral.Binary

/-!
# Decimal digits of a fraction

Two questions about a positive fraction `n / d` in exact arithmetic: where its leading decimal
digit stands (`exponent`) and what it rounds to on a grid of tenths (`rounded`). Both printers,
the one with a fixed number of digits and the one with the fewest, are built from them.
-/

namespace SolidModel.Numeral

/-- The nearest natural to `n / d`; an exact half goes to the even neighbour. -/
def roundDiv (n d : Nat) : Nat :=
  let q := n / d
  let r := n % d
  if 2 * r < d then q
  else if d < 2 * r then q + 1
  else if q % 2 = 0 then q else q + 1

/-- What `n / d` is rounded to is at most half a unit away from it. -/
theorem roundDiv_within_half (n : Nat) {d : Nat} (hd : 0 < d) :
    2 * n ≤ 2 * (roundDiv n d * d) + d ∧ 2 * (roundDiv n d * d) ≤ 2 * n + d := by
  have hn := Nat.div_add_mod n d
  have hr := Nat.mod_lt n hd
  have hq : n / d * d = d * (n / d) := Nat.mul_comm _ _
  have hq' : (n / d + 1) * d = d * (n / d) + d := by rw [Nat.add_mul, hq, Nat.one_mul]
  simp only [roundDiv]
  split
  · omega
  · split
    · omega
    · split <;> omega

/-- How many decimal digits `n` is written with. -/
def digitCount (n : Nat) : Nat := (Nat.toDigits 10 n).length

/-- The `k` with `10 ^ k ≤ n / d < 10 ^ (k + 1)`, for positive `n` and `d`. -/
def decimalExponent (n d : Nat) : Int :=
  if d ≤ n then (digitCount (n / d) : Int) - 1
  else
    let below := digitCount (d / n)
    if n * 10 ^ (below - 1) = d then 1 - (below : Int) else -(below : Int)

/-- `n / d` in units of `10 ^ unit`, as a fraction again. -/
def inUnits (n d : Nat) (unit : Int) : Nat × Nat :=
  (n * 10 ^ (-unit).toNat, d * 10 ^ unit.toNat)

/-- Digits written with at least `width` places, zeros in front. -/
def padded (width n : Nat) : String :=
  let digits := Nat.repr n
  "".pushn '0' (width - digits.length) ++ digits

/-- `digits`, at least one, with a point after the first unless it stands alone. -/
def pointed (digits : String) : String :=
  if digits.length ≤ 1 then digits
  else String.ofList (digits.toList.take 1) ++ "." ++ String.ofList (digits.toList.drop 1)

/-- A power of ten as written behind a mantissa: sign, then at least two digits. -/
def exponentText (k : Int) : String :=
  (if k < 0 then "e-" else "e+") ++ padded 2 k.natAbs

end SolidModel.Numeral
