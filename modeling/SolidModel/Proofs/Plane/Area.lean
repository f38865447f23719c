import Mathlib
import SolidModel.Proofs.Loop.Sums
import SolidModel.Proofs.Plane.Exact

/-!
# The area of a loop

The shoelace sum is additive along diagonals, and over three points it is the doubled area of
their triangle. Hence cutting off a corner changes the area of a loop by that of the corner.
-/

namespace SolidModel

open Point2

namespace Polyline

variable {K : Type} [Field K] [LinearOrder K] [FloorRing K]
variable {l m : List (Point2 K)}

/-- Twice the signed area of a loop. -/
def doubledArea (loop : List (Point2 K)) : K := edgeSum (fun e ↦ edgeArea e.1 e.2) loop

theorem alternates_edgeArea : Alternates fun e : Point2 K × Point2 K ↦ edgeArea e.1 e.2 := by
  intro a b
  simp only [edgeArea]
  ring

theorem signedArea_eq (loop : List (Point2 K)) : signedArea loop = doubledArea loop / 2 := by
  rw [signedArea, doubledArea, edgeSum, List.sum_eq_foldl, List.foldl_map, Scalar.zero_eq,
    Scalar.half_eq, mul_one_div]

theorem signedArea_neg_iff [IsStrictOrderedRing K] {loop : List (Point2 K)} :
    signedArea loop < 0 ↔ doubledArea loop < 0 := by
  rw [signedArea_eq, div_neg_iff]
  norm_num

theorem doubledArea_of_isRotated (h : l ~r m) : doubledArea l = doubledArea m :=
  edgeSum_of_isRotated h

theorem doubledArea_reverse (l : List (Point2 K)) : doubledArea l.reverse = -doubledArea l :=
  edgeSum_reverse alternates_edgeArea l

theorem doubledArea_cut (a b : Point2 K) (l m : List (Point2 K)) :
    doubledArea (a :: l ++ b :: m) = doubledArea (a :: l ++ [b]) + doubledArea (b :: m ++ [a]) :=
  edgeSum_cut alternates_edgeArea a b l m

/-- A map that multiplies what every edge adds by one number. -/
theorem doubledArea_map {g : Point2 K → Point2 K} {c : K}
    (h : ∀ p q, edgeArea (g p) (g q) = edgeArea p q * c) (l : List (Point2 K)) :
    doubledArea (l.map g) = doubledArea l * c := by
  rw [doubledArea, edgeSum_map, doubledArea, ← edgeSum_mul_right]
  exact congrArg (edgeSum · l) (funext fun e ↦ h e.1 e.2)

theorem doubledArea_turned (l : List (Point2 K)) (d : Point2 K) :
    doubledArea (l.map (·.turned d)) = doubledArea l * VectorOps.dot d d := by
  refine doubledArea_map (fun p q ↦ ?_) l
  simp only [edgeArea, turned, Point2.dot_eq]
  ring

theorem doubledArea_shifted (loop : List (Point2 K)) (v : Point2 K) :
    doubledArea (shifted loop v) = doubledArea loop := by
  have hedge (e : Point2 K × Point2 K) : edgeArea (e.1 + v) (e.2 + v)
      = edgeArea e.1 e.2 + ((e.1.x * v.y - v.x * e.1.y) - (e.2.x * v.y - v.x * e.2.y)) := by
    simp only [edgeArea, Point2.add_x, Point2.add_y]
    ring
  have hsum := List.sum_map_add (l := cyclicPairs loop) (f := fun e ↦ edgeArea e.1 e.2)
    (g := fun e ↦ (e.1.x * v.y - v.x * e.1.y) - (e.2.x * v.y - v.x * e.2.y))
  calc doubledArea (shifted loop v)
      = edgeSum (fun e ↦ edgeArea e.1 e.2
          + ((e.1.x * v.y - v.x * e.1.y) - (e.2.x * v.y - v.x * e.2.y))) loop := by
        rw [doubledArea, shifted, edgeSum_map]
        exact congrArg (edgeSum · loop) (funext hedge)
    _ = doubledArea loop + 0 := by
        rw [← edgeSum_sub (fun p : Point2 K ↦ p.x * v.y - v.x * p.y) loop]
        exact hsum
    _ = doubledArea loop := add_zero _

theorem signedArea_shifted (loop : List (Point2 K)) (v : Point2 K) :
    signedArea (shifted loop v) = signedArea loop := by
  rw [signedArea_eq, doubledArea_shifted, signedArea_eq]

theorem doubledArea_triangle (a b c : Point2 K) : doubledArea [a, b, c] = doubleArea a b c := by
  rw [doubledArea, edgeSum_triple, doubleArea_eq]
  simp only [edgeArea]
  ring

end Polyline

end SolidModel
