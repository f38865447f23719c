import Mathlib
import SolidModel.Proofs.Loop.Sums
import SolidModel.Proofs.Plane.Area
import SolidModel.Triangulation.Plane

/-!
# The vector area of a loop in space

Half the sum of the vector products along its edges is the vector area of a loop: its component
along a direction is the area of the loop seen from there, counter-clockwise counted positive. A
loop that is laid into a coordinate plane gets as its area the component along a signed
coordinate axis, see `signedArea_projected`; the six ways to lay it down are told apart here and
nowhere else.

The vector area of a planar loop stands upright on its plane. So a planar loop keeps the sign of
its area when it is laid down by the normal of its plane.
-/

namespace SolidModel

open VectorOps (dot)

/-! ## Vectors -/

namespace Point3

variable {K : Type}

theorem ext_iff' {p q : Point3 K} : p = q ↔ p.x = q.x ∧ p.y = q.y ∧ p.z = q.z := by
  cases p
  cases q
  rw [Point3.mk.injEq]

variable [Field K]

instance : Zero (Point3 K) := ⟨⟨0, 0, 0⟩⟩

@[simp] theorem zero_x : (0 : Point3 K).x = 0 := rfl
@[simp] theorem zero_y : (0 : Point3 K).y = 0 := rfl
@[simp] theorem zero_z : (0 : Point3 K).z = 0 := rfl

variable [LinearOrder K] [FloorRing K] {n p : Point3 K}

instance : AddCommGroup (Point3 K) where
  add_assoc p q r := ext_iff'.mpr ⟨add_assoc .., add_assoc .., add_assoc ..⟩
  zero_add p := ext_iff'.mpr ⟨zero_add _, zero_add _, zero_add _⟩
  add_zero p := ext_iff'.mpr ⟨add_zero _, add_zero _, add_zero _⟩
  add_comm p q := ext_iff'.mpr ⟨add_comm .., add_comm .., add_comm ..⟩
  neg_add_cancel p := ext_iff'.mpr ⟨neg_add_cancel _, neg_add_cancel _, neg_add_cancel _⟩
  sub_eq_add_neg p q := ext_iff'.mpr ⟨sub_eq_add_neg .., sub_eq_add_neg .., sub_eq_add_neg ..⟩
  nsmul := nsmulRec
  zsmul := zsmulRec

theorem dot_eq (p q : Point3 K) : dot p q = p.x * q.x + p.y * q.y + p.z * q.z := rfl

@[simp] theorem cross_x (p q : Point3 K) : (p.cross q).x = p.y * q.z - p.z * q.y := rfl
@[simp] theorem cross_y (p q : Point3 K) : (p.cross q).y = p.z * q.x - p.x * q.z := rfl
@[simp] theorem cross_z (p q : Point3 K) : (p.cross q).z = p.x * q.y - p.y * q.x := rfl

/-- The component along a direction, as a map of groups. -/
def dotHom (n : Point3 K) : Point3 K →+ K where
  toFun := dot n
  map_zero' := by simp [dot_eq]
  map_add' p q := by
    simp only [dot_eq, add_x, add_y, add_z]
    ring

/-- The vector product with a vector, as a map of groups. -/
def crossHom (n : Point3 K) : Point3 K →+ Point3 K where
  toFun := n.cross
  map_zero' := by simp [ext_iff']
  map_add' p q := by
    simp only [ext_iff', add_x, add_y, add_z, cross_x, cross_y, cross_z]
    refine ⟨?_, ?_, ?_⟩ <;> ring

/-- The multiples of a vector, as a map of groups. -/
def scaleHom (n : Point3 K) : K →+ Point3 K where
  toFun s := n * s
  map_zero' := by simp [ext_iff']
  map_add' r s := ext_iff'.mpr ⟨mul_add .., mul_add .., mul_add ..⟩

/-- Multiplication by a number, as a map of groups. -/
def mulHom (s : K) : Point3 K →+ Point3 K where
  toFun p := p * s
  map_zero' := by simp [ext_iff']
  map_add' p q := ext_iff'.mpr ⟨add_mul .., add_mul .., add_mul ..⟩

theorem dot_div (n p : Point3 K) (s : K) : dot n (p / s) = dot n p / s := by
  simp only [dot_eq, div_x, div_y, div_z]
  ring

theorem dot_mul (n p : Point3 K) (s : K) : dot n (p * s) = dot n p * s := by
  simp only [dot_eq, mul_x, mul_y, mul_z]
  ring

theorem cross_cross (n p q : Point3 K) : n.cross (p.cross q) = p * dot n q - q * dot n p := by
  simp only [ext_iff', dot_eq, cross_x, cross_y, cross_z, sub_x, sub_y, sub_z, mul_x, mul_y, mul_z]
  refine ⟨?_, ?_, ?_⟩ <;> ring

variable [IsStrictOrderedRing K]

private theorem dot_self_pos (hn : n ≠ 0) : 0 < dot n n := by
  have hne : n.x ≠ 0 ∨ n.y ≠ 0 ∨ n.z ≠ 0 := by
    by_contra hzero
    simp only [not_or, not_not] at hzero
    exact hn (ext_iff'.mpr hzero)
  rw [dot_eq]
  rcases hne with h | h | h
  · linarith [mul_self_pos.mpr h, mul_self_nonneg n.y, mul_self_nonneg n.z]
  · linarith [mul_self_nonneg n.x, mul_self_pos.mpr h, mul_self_nonneg n.z]
  · linarith [mul_self_nonneg n.x, mul_self_nonneg n.y, mul_self_pos.mpr h]

/-- What stands upright on a plane has the components of its normal, up to one factor. -/
theorem dot_self_mul_dot (h : n.cross p = 0) (r : Point3 K) :
    dot n n * dot r p = dot r n * dot n p := by
  have htwice : dot r (n.cross (n.cross p)) = dot r n * dot n p - dot r p * dot n n := by
    simp only [cross_cross, dot_eq, sub_x, sub_y, sub_z, mul_x, mul_y, mul_z]
    ring
  have hzero : dot r (n.cross 0) = 0 := by simp [dot_eq]
  rw [h, hzero] at htwice
  linarith

/-! ## Coordinate planes -/

/-- One with the sign of a number. -/
def signOf (x : K) : K := if 0 ≤ x then 1 else -1

private theorem signOf_mul_self (x : K) : signOf x * x = |x| := by
  rw [signOf]
  split
  next h => rw [one_mul, abs_of_nonneg h]
  next h => rw [neg_one_mul, abs_of_neg (not_le.mp h)]

/-- The signed coordinate axis that is best aligned with a normal. -/
def mainAxis (n : Point3 K) : Point3 K :=
  if |n.y| ≤ |n.x| ∧ |n.z| ≤ |n.x| then ⟨signOf n.x, 0, 0⟩
  else if |n.z| ≤ |n.y| then ⟨0, signOf n.y, 0⟩
  else ⟨0, 0, signOf n.z⟩

private theorem abs_le_dot_mainAxis (n : Point3 K) :
    |n.x| ≤ dot (mainAxis n) n ∧ |n.y| ≤ dot (mainAxis n) n ∧ |n.z| ≤ dot (mainAxis n) n := by
  rw [mainAxis, dot_eq]
  split_ifs with hx hy
  · simp only [signOf_mul_self, zero_mul, add_zero]
    exact ⟨le_rfl, hx⟩
  · have hle : |n.x| ≤ |n.y| := by
      by_contra hlt
      exact hx ⟨(not_le.mp hlt).le, hy.trans (not_le.mp hlt).le⟩
    simp only [signOf_mul_self, zero_mul, add_zero, zero_add]
    exact ⟨hle, le_rfl, hy⟩
  · have hyz := not_le.mp hy
    have hle : |n.x| ≤ |n.z| := by
      by_contra hlt
      exact hx ⟨(hyz.trans (not_le.mp hlt)).le, (not_le.mp hlt).le⟩
    simp only [signOf_mul_self, zero_mul, zero_add]
    exact ⟨hle, hyz.le, le_rfl⟩

theorem dot_mainAxis_pos (hn : n ≠ 0) : 0 < dot (mainAxis n) n := by
  obtain ⟨hx, hy, hz⟩ := abs_le_dot_mainAxis n
  by_contra hle
  have hzero : ∀ x : K, |x| ≤ dot (mainAxis n) n → x = 0 :=
    fun x hx ↦ abs_nonpos_iff.mp (hx.trans (not_lt.mp hle))
  exact hn (ext_iff'.mpr ⟨hzero _ hx, hzero _ hy, hzero _ hz⟩)

/-- **Laying an edge down.** -/
private theorem edgeArea_projected (n p q : Point3 K) :
    Polyline.edgeArea (projected n p) (projected n q) = dot (mainAxis n) (p.cross q) := by
  simp only [projected, mainAxis, signOf, Polyline.edgeArea, Scalar.magnitude_eq_abs, dot_eq,
    Scalar.zero_eq]
  split_ifs <;> simp only [cross_x, cross_y, cross_z] <;> ring

end Point3

/-! ## Loops -/

namespace Polyline

open Point3

variable {K : Type} [Field K] [LinearOrder K] [FloorRing K]
variable {loop : List (Point3 K)} {n : Point3 K} {k : K}

theorem alternates_cross : Alternates fun e : Point3 K × Point3 K ↦ e.1.cross e.2 := by
  intro p q
  simp only [ext_iff', cross_x, cross_y, cross_z, neg_x, neg_y, neg_z]
  refine ⟨?_, ?_, ?_⟩ <;> ring

/-- Twice the vector area of a loop. -/
def doubledVectorArea (loop : List (Point3 K)) : Point3 K := edgeSum (fun e ↦ e.1.cross e.2) loop

/-- The vector area of a loop. -/
def vectorArea (loop : List (Point3 K)) : Point3 K := doubledVectorArea loop * (0.5 : K)

theorem doubledVectorArea_triangle (a b c : Point3 K) :
    doubledVectorArea [a, b, c] = (b - a).cross (c - a) := by
  rw [doubledVectorArea, edgeSum_triple]
  simp only [ext_iff', add_x, add_y, add_z, sub_x, sub_y, sub_z, cross_x, cross_y, cross_z]
  refine ⟨?_, ?_, ?_⟩ <;> ring

theorem map_edgeSum {α G H : Type} [AddCommGroup G] [AddCommGroup H] (φ : G →+ H) (f : α × α → G)
    (l : List α) : φ (edgeSum f l) = edgeSum (fun e ↦ φ (f e)) l := by
  rw [edgeSum, map_list_sum, List.map_map]
  rfl

/-- A profile carried into space: its coordinates are taken along the vectors `x` and `y`, from the
place `c` on. -/
def carried (profile : List (Point2 K)) (x y c : Point3 K) : List (Point3 K) :=
  profile.map fun p ↦ x * p.x + y * p.y + c

theorem doubledVectorArea_carried (profile : List (Point2 K)) (x y c : Point3 K) :
    doubledVectorArea (carried profile x y c) = x.cross y * doubledArea profile := by
  have hedge (e : Point2 K × Point2 K) :
      (x * e.1.x + y * e.1.y + c).cross (x * e.2.x + y * e.2.y + c)
        = x.cross y * edgeArea e.1 e.2
          + ((x * e.1.x + y * e.1.y).cross c - (x * e.2.x + y * e.2.y).cross c) := by
    simp only [ext_iff', edgeArea, add_x, add_y, add_z, sub_x, sub_y, sub_z, mul_x, mul_y, mul_z,
      cross_x, cross_y, cross_z]
    refine ⟨?_, ?_, ?_⟩ <;> ring
  have hsum := List.sum_map_add (l := cyclicPairs profile)
    (f := fun e ↦ scaleHom (x.cross y) (edgeArea e.1 e.2))
    (g := fun e ↦ (x * e.1.x + y * e.1.y).cross c - (x * e.2.x + y * e.2.y).cross c)
  calc doubledVectorArea (carried profile x y c)
      = edgeSum (fun e ↦ scaleHom (x.cross y) (edgeArea e.1 e.2)
          + ((x * e.1.x + y * e.1.y).cross c - (x * e.2.x + y * e.2.y).cross c)) profile := by
        rw [doubledVectorArea, carried, edgeSum_map]
        exact congrArg (edgeSum · profile) (funext hedge)
    _ = edgeSum (fun e ↦ scaleHom (x.cross y) (edgeArea e.1 e.2)) profile + 0 := by
        rw [← edgeSum_sub (fun p : Point2 K ↦ (x * p.x + y * p.y).cross c) profile]
        exact hsum
    _ = x.cross y * doubledArea profile := by
        rw [add_zero, ← map_edgeSum]
        rfl

/-- The vector area of a planar loop stands upright on its plane. -/
theorem cross_doubledVectorArea (hplane : ∀ p ∈ loop, dot n p = k) :
    n.cross (doubledVectorArea loop) = 0 := by
  refine (map_edgeSum (crossHom n) _ loop).trans ?_
  rw [← edgeSum_sub (fun p : Point3 K ↦ p * k) loop]
  refine congrArg List.sum (List.map_congr_left fun e he ↦ ?_)
  rw [← hplane e.1 (fst_mem_of_mem_cyclicPairs he)]
  refine (cross_cross n e.1 e.2).trans ?_
  rw [hplane e.2 (snd_mem_of_mem_cyclicPairs he), hplane e.1 (fst_mem_of_mem_cyclicPairs he)]

variable [IsStrictOrderedRing K]

theorem doubledArea_projected (loop : List (Point3 K)) (n : Point3 K) :
    doubledArea (projected loop n) = dot (mainAxis n) (doubledVectorArea loop) := by
  rw [doubledArea, projected, edgeSum_map]
  refine Eq.trans ?_ (map_edgeSum (dotHom (mainAxis n)) _ loop).symm
  exact congrArg (edgeSum · loop) (funext fun e ↦ edgeArea_projected n e.1 e.2)

/-- **A loop laid down keeps a component of its vector area.** -/
theorem signedArea_projected (loop : List (Point3 K)) (n : Point3 K) :
    signedArea (projected loop n) = dot (mainAxis n) (vectorArea loop) := by
  rw [signedArea_eq, doubledArea_projected, vectorArea, dot_mul, Scalar.half_eq, mul_one_div]

theorem signedArea_projected_carried (profile : List (Point2 K)) (x y c n : Point3 K) :
    signedArea (projected (carried profile x y c) n)
      = dot (mainAxis n) (x.cross y) * signedArea profile := by
  rw [signedArea_projected, vectorArea, doubledVectorArea_carried, dot_mul, dot_mul, signedArea_eq,
    Scalar.half_eq]
  ring

theorem doubledArea_projected_pos_iff (hn : n ≠ 0) (hplane : ∀ p ∈ loop, dot n p = k) :
    0 < doubledArea (projected loop n) ↔ 0 < dot n (doubledVectorArea loop) := by
  have hparallel := dot_self_mul_dot (cross_doubledVectorArea hplane) (mainAxis n)
  rw [doubledArea_projected, ← mul_pos_iff_of_pos_left (dot_self_pos hn), hparallel,
    mul_pos_iff_of_pos_left (dot_mainAxis_pos hn)]

end Polyline

end SolidModel
