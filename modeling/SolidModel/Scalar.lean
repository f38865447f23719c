import SolidModel.Numeral.Binary

/-!
# The numbers that geometry is computed with

Every construction is written once, over any type of numbers with the arithmetic and the order
of a field. It runs on doubles, whose comparisons with not-a-number are all false, and reads the
same over the rationals or the reals, where each operation is exact. For that the operations
keep the order in which they are written: nothing here reassociates.

`Scalar` holds what the rationals have too, `Trig` what needs the reals: square roots and the
functions of an angle. Angles are in degrees throughout.
-/

namespace SolidModel

/-- Arithmetic, order, and the passage from and to the integers. -/
class Scalar (K : Type) extends
    Add K, Sub K, Mul K, Div K, Neg K, OfScientific K, LT K, LE K, BEq K where
  decLt : ∀ a b : K, Decidable (a < b)
  decLe : ∀ a b : K, Decidable (a ≤ b)
  /-- The number nearest to an integer. -/
  ofInt : Int → K
  /-- The integer part of a finite number, toward zero. -/
  truncate : K → Int

instance decidableLt {K : Type} [Scalar K] (a b : K) : Decidable (a < b) := Scalar.decLt a b

instance decidableLe {K : Type} [Scalar K] (a b : K) : Decidable (a ≤ b) := Scalar.decLe a b

/-- Square roots, and sine, cosine and tangent of an angle in degrees. -/
class Trig (K : Type) where
  sqrt : K → K
  sin : K → K
  cos : K → K
  tan : K → K
  /-- The angle brought into one turn, from 0 to below 360. -/
  withinTurn : K → K

namespace Scalar

variable {K : Type} [Scalar K]

/-- The absolute value. -/
def magnitude (x : K) : K := if x < 0.0 then -x else x

/-- The number of a count or an index. -/
@[inline] def ofNat (n : Nat) : K := ofInt n

/-- Not-a-number is the one number that differs from itself. -/
def isNaN (x : K) : Bool := !(x == x)

/-- An infinity is equal to itself, but its difference from itself is not zero. -/
def isInfinite (x : K) : Bool := x == x && !(x - x == 0.0)

/-- The smaller of two numbers, the first where neither is smaller. -/
def least (x y : K) : K := if y < x then y else x

/-- The larger of two numbers, the first where neither is larger. -/
def greatest (x y : K) : K := if x < y then y else x

/-- Below this two lengths count as the same. -/
@[inline] def epsilon : K := 0.000005

/-- Below this a doubled triangle area counts as none. -/
@[inline] def areaEpsilon : K := 1.0e-5

/-- Are `a` and `b` less than `tolerance` apart? -/
def close (a b : K) (tolerance : K := epsilon) : Bool := decide (magnitude (a - b) < tolerance)

end Scalar

/-! ## Doubles -/

instance : Scalar Float where
  decLt := Float.decLt
  decLe := Float.decLe
  ofInt n := .ofInt n
  truncate := Numeral.integerPart

/-- The quotient is rounded once, before an angle is multiplied by it. -/
def radiansPerDegree : Float := 3.141592653589793 / 180.0

instance : Trig Float where
  sqrt := Float.sqrt
  sin x := Float.sin (x * radiansPerDegree)
  cos x := Float.cos (x * radiansPerDegree)
  tan x := Float.tan (x * radiansPerDegree)
  withinTurn x := Numeral.remainder x 360

end SolidModel
