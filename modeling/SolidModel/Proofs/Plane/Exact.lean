import Mathlib
import SolidModel.Triangulation.Orientation

/-!
# Exact numbers

Any ordered field in which integer parts exist, such as the rationals or the reals, is a type of
numbers to compute with. Each operation is then exact, and the constructions obey the laws of
the field. The tests of `Point2` are translated here into statements on the doubled area of a
triangle, which is all that the geometry of later modules uses of them.
-/

namespace SolidModel

variable {K : Type} [Field K] [LinearOrder K] [FloorRing K]

/-- The arithmetic of an ordered field. The priority is low so that doubles keep their own. -/
instance (priority := low) exactScalar : Scalar K where
  decLt := inferInstance
  decLe := inferInstance
  ofInt n := n
  truncate q := if 0 ≤ q then ⌊q⌋ else ⌈q⌉

namespace Scalar

theorem zero_eq : (0.0 : K) = 0 := by
  norm_num

theorem one_eq : (1.0 : K) = 1 := by
  norm_num

theorem half_eq : (0.5 : K) = 1 / 2 := by
  norm_num

theorem ofInt_eq (n : ℤ) : (ofInt n : K) = n := rfl

theorem ofNat_eq (n : ℕ) : (ofNat n : K) = n := Int.cast_natCast n

theorem fullTurn_eq : (360.0 : K) = 360 := by
  norm_num

theorem cast_toNat {n : ℤ} (h : 1 ≤ n) : ((n.toNat : ℕ) : K) = n := by
  exact_mod_cast Int.toNat_of_nonneg (by omega : 0 ≤ n)

private theorem areaEpsilon_eq : (areaEpsilon : K) = 1 / 100000 := by
  norm_num [areaEpsilon]

variable [IsStrictOrderedRing K]

@[simp] theorem magnitude_eq_abs (x : K) : magnitude x = |x| := by
  rw [magnitude]
  split
  next h =>
    norm_num at h
    rw [abs_of_neg h]
  next h =>
    norm_num at h
    rw [abs_of_nonneg h]

theorem areaEpsilon_pos : (0 : K) < areaEpsilon := by
  rw [areaEpsilon_eq]
  norm_num

theorem close_iff {a b tolerance : K} : close a b tolerance = true ↔ |a - b| < tolerance := by
  rw [close, decide_eq_true_iff, magnitude_eq_abs]

end Scalar

namespace Point2

omit [Field K] [LinearOrder K] [FloorRing K] in
theorem ext_iff' {p q : Point2 K} : p = q ↔ p.x = q.x ∧ p.y = q.y := by
  cases p
  cases q
  rw [Point2.mk.injEq]

theorem dot_eq (p q : Point2 K) : VectorOps.dot p q = p.x * q.x + p.y * q.y := rfl

theorem turned_sub (p q d : Point2 K) : (p - q).turned d = p.turned d - q.turned d := by
  simp only [ext_iff', turned, sub_x, sub_y]
  constructor <;> ring

theorem turned_add (p q d : Point2 K) : (p + q).turned d = p.turned d + q.turned d := by
  simp only [ext_iff', turned, add_x, add_y]
  constructor <;> ring

theorem turned_mul (p d : Point2 K) (s : K) : (p * s).turned d = p.turned d * s := by
  simp only [ext_iff', turned, mul_x, mul_y]
  constructor <;> ring

theorem turned_div (p d : Point2 K) (s : K) : (p / s).turned d = p.turned d / s := by
  simp only [ext_iff', turned, div_x, div_y]
  constructor <;> ring

theorem dot_turned (p d : Point2 K) :
    VectorOps.dot (p.turned d) (p.turned d) = VectorOps.dot p p * VectorOps.dot d d := by
  simp only [dot_eq, turned]
  ring

theorem doubleArea_eq (a b c : Point2 K) :
    doubleArea a b c = (b.x - a.x) * (c.y - a.y) - (c.x - a.x) * (b.y - a.y) := rfl

theorem doubleArea_rotate (a b c : Point2 K) : doubleArea a b c = doubleArea b c a := by
  simp only [doubleArea_eq]
  ring

theorem doubleArea_swap (a b c : Point2 K) : doubleArea b a c = -doubleArea a b c := by
  simp only [doubleArea_eq]
  ring

@[simp] theorem doubleArea_self_left (a b : Point2 K) : doubleArea a a b = 0 := by
  simp only [doubleArea_eq]
  ring

@[simp] theorem doubleArea_self_right (a b : Point2 K) : doubleArea a b b = 0 := by
  simp only [doubleArea_eq]
  ring

@[simp] theorem doubleArea_self_outer (a b : Point2 K) : doubleArea a b a = 0 := by
  simp only [doubleArea_eq]
  ring

theorem isCounterClockwise_iff {a b c : Point2 K} :
    isCounterClockwise a b c = true ↔ 0 < doubleArea a b c := by
  rw [isCounterClockwise, decide_eq_true_iff]
  norm_num

theorem isSliver_iff [IsStrictOrderedRing K] {a b c : Point2 K} :
    isSliver a b c = true ↔ |doubleArea a b c| < Scalar.areaEpsilon := by
  rw [isSliver, decide_eq_true_iff, Scalar.magnitude_eq_abs]

end Point2

end SolidModel
