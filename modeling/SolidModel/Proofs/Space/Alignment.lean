import Mathlib
import SolidModel.Proofs.Space.Rigid

/-!
# Alignments

The alignment of a direction has it as its second row, so the direction goes onto the second axis.
The first row is across it and the upward direction, and the third is the product of the direction
and the first row. The rows are unit vectors at right angles, but the product is taken in the order
that makes a mirror of them, whatever the direction: the other order would have made a turn.
-/

namespace SolidModel

open VectorOps (dot)
open Outcome

variable {K : Type} [Field K] [LinearOrder K] [FloorRing K] [Trig K]

namespace Matrix4

open Point3

variable {m : Matrix4 K} {direction : Point3 K} {up : Option (Point3 K)}

/-- The rows of an alignment, from the unit vector `d` of the direction. -/
def alignedRows (up d : Point3 K) : Matrix4 K :=
  ofBlockRows (up.across d) d (d.cross (up.across d)) noShift

private theorem apply_alignedRows (up : Point3 K) {d : Point3 K} (hd : dot d d = 1) (r w : K) :
    (alignedRows up d).apply ((d * r).withW w) = (⟨0, r, 0⟩ : Point3 K).withW w := by
  have hx : dot (up.across d) d = 0 := (dot_comm _ _).trans (dot_across_right up d)
  have hz : dot (d.cross (up.across d)) d = 0 :=
    (dot_comm _ _).trans (dot_cross_self_left d (up.across d))
  have hrows : (⟨dot (up.across d) (d * r), dot d (d * r), dot (d.cross (up.across d)) (d * r)⟩
      : Point3 K) + (noShift : Point3 K) * w = ⟨0, r, 0⟩ := by
    rw [dot_mul, dot_mul, dot_mul, hx, hd, hz]
    simp [ext_iff', noShift, Scalar.zero_eq]
  rw [alignedRows, apply_ofBlockRows]
  exact congrArg (Point3.withW · w) hrows

variable [IsStrictOrderedRing K] [Trig.HasRoots K]

private theorem cross_div_length {d x : Point3 K} (hd : dot d d = 1) (hx : dot x x = 1)
    (hdx : dot d x = 0) : VectorOps.length (d.cross x) = 1 ∧
      d.cross x / VectorOps.length (d.cross x) = d.cross x := by
  have hlength : VectorOps.length (d.cross x) = 1 :=
    Trig.sqrt_eq zero_le_one ((one_mul 1).trans (dot_cross_cross_self hd hx hdx).symm)
  refine ⟨hlength, ?_⟩
  rw [hlength]
  simp only [ext_iff', div_x, div_y, div_z, div_one, and_self]

theorem alignment_eq_ok_iff : alignment direction up = .ok m ↔
    ¬VectorOps.length direction < Scalar.epsilon ∧
    ¬VectorOps.length ((up.getD vertical).cross (direction / VectorOps.length direction))
      < Scalar.epsilon ∧
    alignedRows (up.getD vertical) (direction / VectorOps.length direction) = m := by
  simp only [alignment, bind_eq_ok_iff, guard_eq_ok_iff, VectorOps.normalized_eq_ok_iff,
    pure_eq_ok_iff]
  constructor
  · rintro ⟨d, ⟨hlong, rfl⟩, htilted, x, ⟨-, rfl⟩, z, ⟨-, rfl⟩, rfl⟩
    have hproduct := cross_div_length (VectorOps.dot_div_length hlong)
      (VectorOps.dot_div_length htilted) (dot_across_right _ _)
    exact ⟨hlong, htilted, congrArg (ofBlockRows _ _ · noShift) hproduct.2.symm⟩
  · rintro ⟨hlong, htilted, rfl⟩
    have hproduct := cross_div_length (VectorOps.dot_div_length hlong)
      (VectorOps.dot_div_length htilted) (dot_across_right _ _)
    -- the last row is checked as well, but has length one once the others are made
    have hlast : ¬VectorOps.length ((direction / VectorOps.length direction).cross
        ((up.getD vertical).across (direction / VectorOps.length direction))) < Scalar.epsilon := by
      rw [Point3.across, hproduct.1]
      norm_num [Scalar.epsilon]
    exact ⟨_, ⟨hlong, rfl⟩, htilted, _, ⟨htilted, rfl⟩, _, ⟨hlast, rfl⟩,
      congrArg (ofBlockRows _ _ · noShift) hproduct.2⟩

section Rows

variable {up d : Point3 K} (hd : dot d d = 1)
  (htilted : ¬VectorOps.length (up.cross d) < Scalar.epsilon)
include hd htilted

private theorem block_alignedRows_mem :
    (alignedRows up d).block ∈ Matrix.orthogonalGroup (Fin 3) K :=
  block_mem_orthogonalGroup (isOrthonormal_cross hd (VectorOps.dot_div_length htilted)
    (dot_across_right up d)).swap noShift

private theorem det_block_alignedRows : (alignedRows up d).block.det = -1 := by
  have hx : dot (up.across d) (up.across d) = 1 := VectorOps.dot_div_length htilted
  -- the product of the last two rows is the first one, reversed
  rw [alignedRows, det_block_ofBlockRows, cross_cross_eq_neg hd (dot_across_right up d), dot_comm,
    neg_dot, hx]

end Rows

private theorem det_block_of_alignment (h : alignment direction up = .ok m) : m.block.det = -1 := by
  obtain ⟨hlong, htilted, rfl⟩ := alignment_eq_ok_iff.mp h
  exact det_block_alignedRows (VectorOps.dot_div_length hlong) htilted

/-- **Alignments are mirrors.** Their rows are unit vectors at right angles, they shift nothing, and
they bring the direction onto the second axis; but they turn what they move inside out. -/
theorem isMirror_of_alignment (h : alignment direction up = .ok m) :
    m.block ∈ Matrix.orthogonalGroup (Fin 3) K ∧ m.block.det = -1 ∧
      m.column 3 = ⟨0, 0, 0, 1⟩ ∧ m.row 3 = ⟨0, 0, 0, 1⟩ ∧
      ∀ w, m.apply (direction.withW w)
        = (⟨0, VectorOps.length direction, 0⟩ : Point3 K).withW w := by
  have hdet := det_block_of_alignment h
  obtain ⟨hlong, htilted, rfl⟩ := alignment_eq_ok_iff.mp h
  have hd := VectorOps.dot_div_length hlong
  refine ⟨block_alignedRows_mem hd htilted, hdet, ?_, row_last_ofBlockRows _ _ _ _, fun w ↦ ?_⟩
  · change (⟨0.0, 0.0, 0.0, 1.0⟩ : Point4 K) = _
    rw [Scalar.zero_eq, Scalar.one_eq]
  · have happly := apply_alignedRows (up.getD vertical) hd (VectorOps.length direction) w
    rwa [VectorOps.div_length_mul_length hlong] at happly

/-- The alignment of a slanted direction. -/
theorem isMirror_of_alignment_slanted :
    ∃ m, alignment (⟨0, 3, 4⟩ : Point3 ℝ) = .ok m ∧
      m.block ∈ Matrix.orthogonalGroup (Fin 3) ℝ ∧ m.block.det = -1 ∧
      m.apply ⟨0, 3, 4, 1⟩ = ⟨0, 5, 0, 1⟩ := by
  have hlength : VectorOps.length (⟨0, 3, 4⟩ : Point3 ℝ) = 5 :=
    Trig.sqrt_eq (by norm_num) (by norm_num [VectorOps.squaredLength, dot_eq])
  have hcross : VectorOps.length
      ((vertical : Point3 ℝ).cross ((⟨0, 3, 4⟩ : Point3 ℝ) / (5 : ℝ))) = 3 / 5 :=
    Trig.sqrt_eq (by norm_num) (by norm_num [VectorOps.squaredLength, dot_eq, vertical])
  obtain ⟨m, hm⟩ : ∃ m, alignment (⟨0, 3, 4⟩ : Point3 ℝ) none = .ok m := by
    refine ⟨_, alignment_eq_ok_iff.mpr ⟨?_, ?_, rfl⟩⟩
    · rw [hlength]
      norm_num [Scalar.epsilon]
    · rw [hlength, Option.getD_none, hcross]
      norm_num [Scalar.epsilon]
  obtain ⟨hblock, hdet, -, -, happly⟩ := isMirror_of_alignment hm
  rw [hlength] at happly
  exact ⟨m, hm, hblock, hdet, happly 1⟩

/-- The alignment of the first axis is no turn. -/
theorem exists_alignment_det_ne_one :
    ∃ m, alignment (⟨2, 0, 0⟩ : Point3 ℝ) = .ok m ∧ m.block.det ≠ 1 := by
  have hlength : VectorOps.length (⟨2, 0, 0⟩ : Point3 ℝ) = 2 :=
    Trig.sqrt_eq zero_le_two (by norm_num [VectorOps.squaredLength, dot_eq])
  have hcross : VectorOps.length
      ((vertical : Point3 ℝ).cross ((⟨2, 0, 0⟩ : Point3 ℝ) / (2 : ℝ))) = 1 :=
    Trig.sqrt_eq zero_le_one (by norm_num [VectorOps.squaredLength, dot_eq, vertical])
  obtain ⟨m, hm⟩ : ∃ m, alignment (⟨2, 0, 0⟩ : Point3 ℝ) none = .ok m := by
    refine ⟨_, alignment_eq_ok_iff.mpr ⟨?_, ?_, rfl⟩⟩
    · rw [hlength]
      norm_num [Scalar.epsilon]
    · rw [hlength, Option.getD_none, hcross]
      norm_num [Scalar.epsilon]
  refine ⟨m, hm, ?_⟩
  rw [det_block_of_alignment hm]
  norm_num

end Matrix4

end SolidModel
