import Mathlib
import SolidModel.Proofs.Polygon.Cut

/-!
# Clockwise loops

A clockwise loop has negative area, winds around no point counter-clockwise, and has an ear away
from any given edge. The three go together: triangles have them, and so does a loop that a
diagonal cuts into two parts which have them, if neither part winds around a vertex of the
other. Then an ear of one part away from the diagonal is an ear of the whole loop, see
`ClockwiseCut.isEar`.
-/

namespace SolidModel

open Point2
open VectorOps (lerp)

namespace Polyline

variable {K : Type} [Field K] [LinearOrder K] [FloorRing K]
variable {a b c q t u v w z : Point2 K} {loop l m : List (Point2 K)}

/-- An ear of a clockwise loop: a clockwise corner whose triangle holds no other vertex, and
around whose points the loop does wind. -/
structure IsEar (loop : List (Point2 K)) (a t b : Point2 K) : Prop where
  corner : IsCorner loop a t b
  clockwise : doubleArea a t b < 0
  vacant : IsVacant loop a t b
  winding_le : ∀ q, Avoids loop q → InHull a t b q → winding loop q ≤ -1

/-- What is true of a clockwise loop: its area is negative, it winds around no point
counter-clockwise, and away from each of its edges it has an ear. -/
structure RunsClockwise (loop : List (Point2 K)) : Prop where
  doubledArea_neg : doubledArea loop < 0
  winding_nonpos : ∀ q, Avoids loop q → winding loop q ≤ 0
  exists_ear : ∀ e ∈ cyclicPairs loop, ∃ a t b, IsEar loop a t b ∧ t ≠ e.1 ∧ t ≠ e.2

theorem avoids_of_isRotated (h : l ~r m) (q : Point2 K) : Avoids l q ↔ Avoids m q :=
  forall_congr' fun _ ↦ imp_congr_left (mem_cyclicPairs_iff h)

theorem avoids_reverse_iff [IsStrictOrderedRing K] : Avoids l.reverse q ↔ Avoids l q := by
  have hswap : ∀ e : Point2 K × Point2 K, OnSegment e.swap.1 e.swap.2 q ↔ OnSegment e.1 e.2 q :=
    fun e ↦ onSegment_comm
  constructor
  · intro h e he
    rw [← hswap]
    exact h e.swap (mem_cyclicPairs_reverse_iff.mpr (by rwa [Prod.swap_swap]))
  · intro h e he
    rw [← hswap]
    exact h e.swap (mem_cyclicPairs_reverse_iff.mp he)

theorem IsEar.of_isRotated (h : IsEar l a t b) (hrot : l ~r m) : IsEar m a t b where
  corner := h.corner.of_isRotated hrot
  clockwise := h.clockwise
  vacant := h.vacant.of_isRotated hrot
  winding_le q hq hin := by
    rw [← winding_of_isRotated hrot]
    exact h.winding_le q ((avoids_of_isRotated hrot q).mpr hq) hin

theorem RunsClockwise.of_isRotated (h : RunsClockwise l) (hrot : l ~r m) : RunsClockwise m where
  doubledArea_neg := doubledArea_of_isRotated hrot ▸ h.doubledArea_neg
  winding_nonpos q hq := by
    rw [← winding_of_isRotated hrot]
    exact h.winding_nonpos q ((avoids_of_isRotated hrot q).mpr hq)
  exists_ear e he := by
    obtain ⟨a, t, b, hear, hne⟩ := h.exists_ear e ((mem_cyclicPairs_iff hrot).mpr he)
    exact ⟨a, t, b, hear.of_isRotated hrot, hne⟩

/-! ## Triangles -/

private theorem isEar_triangle [IsStrictOrderedRing K] (h : doubleArea a t b < 0) :
    IsEar [a, t, b] a t b where
  corner := isCorner_cons a t b []
  clockwise := h
  vacant u hu _ := by simpa using hu
  winding_le q hq hin := (winding_triangle_of_inHull h.le hq hin).le

theorem runsClockwise_triangle [IsStrictOrderedRing K] (h : doubleArea a t b < 0) :
    RunsClockwise [a, t, b] where
  doubledArea_neg := by rwa [doubledArea_triangle]
  winding_nonpos q hq := by
    by_cases hin : InHull a t b q
    · rw [winding_triangle_of_inHull h.le hq hin]
      norm_num
    · exact (winding_triangle_of_not_inHull h.le hin).le
  exists_ear e he := by
    have hDt : doubleArea t b a < 0 := by rwa [← doubleArea_rotate]
    have hDb : doubleArea b a t < 0 := by rwa [doubleArea_rotate]
    have hrot : [t, b, a] ~r [a, t, b] := List.isRotated_concat a [t, b]
    have hrot' : [b, a, t] ~r [a, t, b] := (List.isRotated_concat b [a, t]).symm
    have hat : a ≠ t := by
      rintro rfl
      exact h.ne (doubleArea_self_left _ _)
    have htb : t ≠ b := by
      rintro rfl
      exact h.ne (doubleArea_self_right _ _)
    have hab : a ≠ b := by
      rintro rfl
      exact h.ne (doubleArea_self_outer _ _)
    -- away from an edge is the corner opposite to it
    rw [cyclicPairs_corner] at he
    simp only [List.cons_append, List.nil_append, links_cons_cons, links_singleton, List.mem_cons,
      List.not_mem_nil, or_false] at he
    rcases he with rfl | rfl | rfl
    · exact ⟨t, b, a, (isEar_triangle hDt).of_isRotated hrot, hab.symm, htb.symm⟩
    · exact ⟨b, a, t, (isEar_triangle hDb).of_isRotated hrot', hat, hab⟩
    · exact ⟨a, t, b, isEar_triangle h, htb, hat.symm⟩

/-! ## Gluing -/

/-- A loop cut along a diagonal into two clockwise parts, neither of which winds around a vertex
of the other. -/
structure ClockwiseCut (v z : Point2 K) (l m : List (Point2 K)) : Prop extends IsCut v z l m where
  left : RunsClockwise (v :: l ++ [z])
  right : RunsClockwise (z :: m ++ [v])
  winding_left : ∀ u ∈ m, winding (v :: l ++ [z]) u = 0
  winding_right : ∀ u ∈ l, winding (z :: m ++ [v]) u = 0

private theorem exists_off_line (h : doubleArea a t b ≠ 0) (hvz : v ≠ z) :
    ∃ c, (c = a ∨ c = t ∨ c = b) ∧ doubleArea v z c ≠ 0 := by
  by_contra hall
  push Not at hall
  have ha := hall a (by simp)
  have ht := hall t (by simp)
  have hb := hall b (by simp)
  simp only [doubleArea_eq] at ha ht hb h
  refine hvz (ext_iff'.mpr ⟨?_, ?_⟩)
  · have hx : (z.x - v.x) * ((t.x - a.x) * (b.y - a.y) - (b.x - a.x) * (t.y - a.y)) = 0 := by
      linear_combination (t.x - a.x) * (hb - ha) - (b.x - a.x) * (ht - ha)
    exact (sub_eq_zero.mp ((mul_eq_zero.mp hx).resolve_right h)).symm
  · have hy : (z.y - v.y) * ((t.x - a.x) * (b.y - a.y) - (b.x - a.x) * (t.y - a.y)) = 0 := by
      linear_combination (t.y - a.y) * (hb - ha) - (b.y - a.y) * (ht - ha)
    exact (sub_eq_zero.mp ((mul_eq_zero.mp hy).resolve_right h)).symm

namespace ClockwiseCut

variable [IsStrictOrderedRing K]

theorem symm (h : ClockwiseCut v z l m) : ClockwiseCut z v m l where
  toIsCut := h.toIsCut.symm
  left := h.right
  right := h.left
  winding_left := h.winding_right
  winding_right := h.winding_left

/-- **An ear of one part**, away from the diagonal, is an ear of the whole loop. -/
theorem isEar (h : ClockwiseCut v z l m) (hear : IsEar (z :: m ++ [v]) a t b) (htv : t ≠ v)
    (htz : t ≠ z) : IsEar (v :: l ++ z :: m) a t b := by
  have hedge : ∀ e, e ≠ (v, z) → e ∈ cyclicPairs (z :: m ++ [v]) →
      e ∈ cyclicPairs (v :: l ++ z :: m) := by
    exact fun e hne he ↦ mem_whole_iff.mpr (.inr ((mem_part_iff.mp he).resolve_right hne))
  refine ⟨⟨?_, ?_⟩, hear.clockwise, ?_, ?_⟩
  · exact hedge _ (fun heq ↦ htz (congrArg Prod.snd heq)) hear.corner.1
  · exact hedge _ (fun heq ↦ htv (congrArg Prod.fst heq)) hear.corner.2
  · intro u hu hin
    by_cases hul : u ∈ l
    · have hle := hear.winding_le u (h.avoids_of_mem hul) hin
      rw [h.winding_right u hul] at hle
      norm_num at hle
    · refine hear.vacant u ?_ hin
      simp only [List.cons_append, List.mem_cons, List.mem_append, List.not_mem_nil,
        or_false] at hu ⊢
      tauto
  · intro q hq hin
    obtain ⟨c, hc, hoff⟩ := exists_off_line hear.clockwise.ne h.ne
    obtain ⟨r, hr, hr1, hr2, hsum⟩ := IsCut.exists_winding_add hq hoff
    have hcin : InHull a t b c := by
      rcases hc with rfl | rfl | rfl
      · exact inHull_left _ _ _
      · exact inHull_middle _ _ _
      · exact inHull_right _ _ _
    have h1 := h.left.winding_nonpos r hr1
    have h2 := hear.winding_le r hr2 (hin.of_onSegment hcin hr)
    omega

theorem exists_ear (h : ClockwiseCut v z l m) {e : Point2 K × Point2 K}
    (he : e ∈ links (v :: l ++ [z])) :
    ∃ a t b, IsEar (v :: l ++ z :: m) a t b ∧ t ≠ e.1 ∧ t ≠ e.2 := by
  obtain ⟨a, t, b, hear, htv, htz⟩ := h.right.exists_ear (v, z) (mem_part_iff.mpr (.inr rfl))
  refine ⟨a, t, b, h.isEar hear htv htz, ?_⟩
  have hnd := h.proper.nodup
  rw [List.cons_append, List.nodup_cons, List.nodup_append] at hnd
  have htl : t ∉ l := by
    intro htl
    have ht := hear.corner.mem.2.1
    rw [List.cons_append, List.mem_cons, List.mem_append, List.mem_singleton] at ht
    exact hnd.2.2.2 t htl t (by simp only [List.mem_cons]; tauto) rfl
  have hne : ∀ w ∈ v :: l ++ [z], t ≠ w := by
    rintro w hw rfl
    simp only [List.cons_append, List.mem_cons, List.mem_append, List.not_mem_nil, or_false] at hw
    tauto
  exact ⟨hne _ (fst_mem_of_mem_links he), hne _ (List.mem_cons_of_mem _ (snd_mem_of_mem_links he))⟩

/-- **Gluing two clockwise parts.** -/
theorem runsClockwise (h : ClockwiseCut v z l m) : RunsClockwise
    (v :: l ++ z :: m) where
  doubledArea_neg := by
    rw [doubledArea_cut]
    exact add_neg h.left.doubledArea_neg h.right.doubledArea_neg
  winding_nonpos q hq := by
    obtain ⟨a, t, b, hear, -⟩ := h.right.exists_ear (v, z) (mem_part_iff.mpr (.inr rfl))
    obtain ⟨c, -, hoff⟩ := exists_off_line hear.clockwise.ne h.ne
    obtain ⟨r, -, hr1, hr2, hsum⟩ := IsCut.exists_winding_add hq hoff
    rw [hsum]
    exact add_nonpos (h.left.winding_nonpos r hr1) (h.right.winding_nonpos r hr2)
  exists_ear e he := by
    rcases mem_whole_iff.mp he with he | he
    · exact h.exists_ear he
    · obtain ⟨a, t, b, hear, hne⟩ := h.symm.exists_ear he
      exact ⟨a, t, b, hear.of_isRotated List.isRotated_append, hne⟩

end ClockwiseCut

end Polyline

end SolidModel
