import Mathlib
import SolidModel.Proofs.Plane.Exact

/-!
# Quarter turns

The sine of a whole number of quarter turns is rational, and so is the root of the square of a
rational number. Where a construction needs no other angles and roots it can be run over the
rationals with nothing rounded.

Between quarter turns there is no rational value to take. There, and at other roots, the functions
below round down, and are of no use.
-/

namespace SolidModel

namespace QuarterTurn

/-- The sine of a number of quarter turns. -/
def sine (quarters : ℤ) : ℚ :=
  if quarters % 4 = 1 then 1 else if quarters % 4 = 3 then -1 else 0

/-- The quarter turns in an angle. -/
def quarters (degrees : ℚ) : ℤ := ⌊degrees / 90⌋

/-- The root of a square. -/
def root (x : ℚ) : ℚ := (x.num.toNat.sqrt : ℚ) / (x.den.sqrt : ℚ)

scoped instance exactTrig : Trig ℚ where
  sqrt := root
  sin x := sine (quarters x)
  cos x := sine (quarters x + 1)
  tan x := sine (quarters x) / sine (quarters x + 1)
  withinTurn x := x - 360 * ⌊x / 360⌋

theorem sine_mul_sine_add (q : ℤ) :
    sine (q + 1) * sine (q + 1) + sine q * sine q = 1 := by
  have h : q % 4 = 0 ∨ q % 4 = 1 ∨ q % 4 = 2 ∨ q % 4 = 3 := by omega
  simp only [sine]
  rcases h with h | h | h | h <;> simp [h, Int.add_emod]

theorem root_mul_self {x : ℚ} (hx : 0 ≤ x) : root (x * x) = x := by
  obtain ⟨n, hn⟩ := Int.eq_ofNat_of_zero_le (Rat.num_nonneg.mpr hx)
  rw [root, Rat.mul_self_num, Rat.mul_self_den, hn]
  have hsquare : ((n : ℤ) * n).toNat = n * n := by rw [← Nat.cast_mul, Int.toNat_natCast]
  rw [hsquare, Nat.sqrt_eq, Nat.sqrt_eq, ← Int.cast_natCast, ← hn, Rat.num_div_den]

end QuarterTurn

end SolidModel
