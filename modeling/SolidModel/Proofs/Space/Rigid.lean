import Mathlib
import SolidModel.Proofs.Space.Matrices

/-!
# Rigid motions

A matrix moves solids without deforming them or turning them inside out if its block is a rotation
and its last row keeps places places. The rows of a block are unit vectors at right angles wherever
two of them are and the third is their vector product; that the third is the product in the right
order makes it a rotation and not a mirror, see `isRigid_ofBlockRows`.
-/

namespace SolidModel

open VectorOps (dot)

variable {K : Type} [Field K] [LinearOrder K] [FloorRing K]

/-! ## Unit vectors at right angles -/

namespace Point3

variable {x y z : Point3 K}

/-- Three unit vectors at right angles to each other. -/
structure IsOrthonormal (x y z : Point3 K) : Prop where
  dot_x : dot x x = 1
  dot_y : dot y y = 1
  dot_z : dot z z = 1
  dot_x_y : dot x y = 0
  dot_x_z : dot x z = 0
  dot_y_z : dot y z = 0

theorem isOrthonormal_cross (hx : dot x x = 1) (hy : dot y y = 1) (hxy : dot x y = 0) :
    IsOrthonormal x y (x.cross y) where
  dot_x := hx
  dot_y := hy
  dot_z := dot_cross_cross_self hx hy hxy
  dot_x_y := hxy
  dot_x_z := dot_cross_self_left x y
  dot_y_z := dot_cross_self_right x y

theorem IsOrthonormal.swap (h : IsOrthonormal x y z) : IsOrthonormal y x z where
  dot_x := h.dot_y
  dot_y := h.dot_x
  dot_z := h.dot_z
  dot_x_y := (dot_comm y x).trans h.dot_x_y
  dot_x_z := h.dot_y_z
  dot_y_z := h.dot_x_z

end Point3

namespace Matrix4

open Point3

variable {m n : Matrix4 K} {x y z shift : Point3 K}

/-! ## Blocks -/

/-- The block in front of the shift, which is all that directions see of a matrix. -/
def block (m : Matrix4 K) : Matrix (Fin 3) (Fin 3) K :=
  m.table.submatrix Fin.castSucc Fin.castSucc

theorem block_ofBlockRows (x y z shift : Point3 K) :
    (ofBlockRows x y z shift).block = !![x.x, x.y, x.z; y.x, y.y, y.z; z.x, z.y, z.z] := by
  ext i j
  fin_cases i <;> fin_cases j <;> rfl

theorem block_ofColumns (x y z shift : Point3 K) :
    (ofColumns x y z shift).block = (ofBlockRows x y z shift).block.transpose := by
  rw [block_ofBlockRows]
  ext i j
  fin_cases i <;> fin_cases j <;> rfl

theorem det_block_ofBlockRows (x y z shift : Point3 K) :
    (ofBlockRows x y z shift).block.det = dot x (y.cross z) := by
  rw [block_ofBlockRows, Matrix.det_fin_three]
  simp only [Matrix.of_apply, Matrix.cons_val', Matrix.cons_val, dot_eq, cross_x, cross_y, cross_z]
  ring

theorem block_mem_orthogonalGroup [IsStrictOrderedRing K] (h : IsOrthonormal x y z)
    (shift : Point3 K) : (ofBlockRows x y z shift).block ∈ Matrix.orthogonalGroup (Fin 3) K := by
  obtain ⟨hx, hy, hz, hxy, hxz, hyz⟩ := h
  rw [Matrix.mem_orthogonalGroup_iff, block_ofBlockRows]
  simp only [dot_eq] at hx hy hz hxy hxz hyz
  ext i j
  fin_cases i <;> fin_cases j <;> simp [Matrix.mul_apply, Fin.sum_univ_three] <;> linarith

theorem block_axes (shift : Point3 K) :
    (ofBlockRows (unit .x) (unit .y) (unit .z) shift).block = 1 := by
  rw [block_ofBlockRows]
  simp only [unit, Scalar.zero_eq, Scalar.one_eq]
  ext i j
  fin_cases i <;> fin_cases j <;> rfl

/-- Where the second factor keeps directions, the block of a product is the product of the
blocks. -/
theorem block_mul (h : n.row 3 = ⟨0, 0, 0, 1⟩) : (m * n).block = m.block * n.block := by
  have hlast (j : Fin 3) : n.table (Fin.last 3) j.castSucc = 0 := by
    have hentry : (n.row 3).get j.castSucc = 0 := by
      rw [h]
      fin_cases j <;> rfl
    rw [get_row] at hentry
    exact (table_apply n _ _).trans hentry
  ext i j
  rw [block, table_mul_eq_mul, Matrix.submatrix_apply, Matrix.mul_apply, Fin.sum_univ_castSucc,
    hlast, mul_zero, add_zero, Matrix.mul_apply]
  rfl

/-! ## Other shifts -/

omit [Field K] [LinearOrder K] [FloorRing K] in
theorem entry_shiftedTo (m : Matrix4 K) (p : Point4 K) (i j : Fin 4) :
    (m.shiftedTo p).entry i j = if j = 3 then p.get i else m.entry i j := by
  obtain ⟨row0, row1, row2, row3, flag⟩ := m
  cases flag <;> fin_cases i <;> fin_cases j <;> rfl

omit [Field K] [LinearOrder K] [FloorRing K] in
private theorem block_shiftedTo (m : Matrix4 K) (p : Point4 K) :
    (m.shiftedTo p).block = m.block := by
  ext i j
  have hne : j.castSucc ≠ (3 : Fin 4) := Fin.castSucc_ne_last j
  rw [block, Matrix.submatrix_apply, table_apply, entry_shiftedTo, if_neg hne]
  exact (table_apply m _ _).symm

theorem apply_origin_shiftedTo (m : Matrix4 K) (p : Point4 K) :
    (m.shiftedTo p).apply ⟨0, 0, 0, 1⟩ = p := by
  refine Point4.eq_of_get fun i ↦ ?_
  rw [apply_eq_ofGet, Point4.get_ofGet, summedProducts]
  simp [Point4.get, Matrix.row, table_apply, entry_shiftedTo]

/-! ## Rigid matrices -/

/-- The matrix turns directions, and takes places to places. -/
structure IsRigid (m : Matrix4 K) : Prop where
  block_mem : m.block ∈ Matrix.specialOrthogonalGroup (Fin 3) K
  row_last : m.row 3 = ⟨0, 0, 0, 1⟩

/-- The last row 0, 0, 0, 1 leaves the last coordinate alone. -/
theorem row_last_iff : m.row 3 = ⟨0, 0, 0, 1⟩ ↔ ∀ p : Point4 K, (m.apply p).w = p.w := by
  change m.row 3 = _ ↔ ∀ p : Point4 K, dot (m.row 3) p = p.w
  generalize m.row 3 = r
  obtain ⟨x, y, z, w⟩ := r
  have hdot (p : Point4 K) : dot ⟨x, y, z, w⟩ p = x * p.x + y * p.y + z * p.z + w * p.w := rfl
  simp only [hdot, Point4.mk.injEq]
  constructor
  · rintro ⟨rfl, rfl, rfl, rfl⟩ p
    ring
  · intro h
    exact ⟨by simpa using h ⟨1, 0, 0, 0⟩, by simpa using h ⟨0, 1, 0, 0⟩,
      by simpa using h ⟨0, 0, 1, 0⟩, by simpa using h ⟨0, 0, 0, 1⟩⟩

theorem row_last_ofBlockRows (x y z shift : Point3 K) :
    (ofBlockRows x y z shift).row 3 = ⟨0, 0, 0, 1⟩ := by
  change (⟨0.0, 0.0, 0.0, 1.0⟩ : Point4 K) = _
  rw [Scalar.zero_eq, Scalar.one_eq]

theorem isRigid_axes (shift : Point3 K) :
    (ofBlockRows (unit .x) (unit .y) (unit .z) shift).IsRigid where
  block_mem := by
    rw [block_axes]
    exact Submonoid.one_mem _
  row_last := row_last_ofBlockRows _ _ _ _

/-- **Rows that turn.** The third row is the product of the others in order. -/
theorem isRigid_ofBlockRows [IsStrictOrderedRing K] (hx : dot x x = 1) (hy : dot y y = 1)
    (hxy : dot x y = 0) (shift : Point3 K) : (ofBlockRows x y (x.cross y) shift).IsRigid where
  block_mem := by
    refine Matrix.mem_specialOrthogonalGroup_iff.mpr
      ⟨block_mem_orthogonalGroup (isOrthonormal_cross hx hy hxy) shift, ?_⟩
    rw [det_block_ofBlockRows, cross_cross_eq_self hy ((dot_comm y x).trans hxy), hx]
  row_last := row_last_ofBlockRows _ _ _ _

theorem isRigid_ofColumns [IsStrictOrderedRing K] (hx : dot x x = 1) (hy : dot y y = 1)
    (hxy : dot x y = 0) (shift : Point3 K) : (ofColumns x y (x.cross y) shift).IsRigid where
  block_mem := by
    have hrows := Matrix.mem_specialOrthogonalGroup_iff.mp
      (isRigid_ofBlockRows hx hy hxy shift).block_mem
    rw [block_ofColumns, Matrix.mem_specialOrthogonalGroup_iff, Matrix.mem_orthogonalGroup_iff',
      Matrix.transpose_transpose, Matrix.det_transpose]
    exact ⟨(Matrix.mem_orthogonalGroup_iff _ _).mp hrows.1, hrows.2⟩
  row_last := row_last_ofBlockRows x y (x.cross y) shift

theorem IsRigid.shiftedTo (h : m.IsRigid) (p : Point3 K) :
    (m.shiftedTo (p.withW 1.0)).IsRigid where
  block_mem := by
    rw [block_shiftedTo]
    exact h.block_mem
  row_last := by
    refine Point4.eq_of_get fun j ↦ ?_
    rw [get_row, entry_shiftedTo]
    split
    next hj =>
      rw [hj]
      exact Scalar.one_eq
    next hj => rw [← get_row, h.row_last]

theorem IsRigid.mul (hm : m.IsRigid) (hn : n.IsRigid) : (m * n).IsRigid where
  block_mem := by
    rw [block_mul hn.row_last]
    exact Submonoid.mul_mem _ hm.block_mem hn.block_mem
  row_last := row_last_iff.mpr fun p ↦ by
    rw [apply_mul, row_last_iff.mp hm.row_last, row_last_iff.mp hn.row_last]

end Matrix4

end SolidModel
