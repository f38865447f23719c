import Mathlib
import SolidModel.Proofs.Polygon.Corner

/-!
# Cutting a proper loop along a diagonal

A diagonal leads from one vertex of a proper loop to another and meets the edges only in their
ends. It cuts the loop into two proper loops, and every sum over edges, such as the winding
number, into two. The vertices strictly within one part are on no edge of the other, and the
other part winds around all of them equally often, since the edges between them do not meet it.
-/

namespace SolidModel

open Point2
open VectorOps (lerp)

namespace Polyline

variable {K : Type} {c q u v w z : Point2 K} {l m : List (Point2 K)}

theorem mem_part_iff {e : Point2 K × Point2 K} :
    e ∈ cyclicPairs (v :: l ++ [z]) ↔ e ∈ links (v :: l ++ [z]) ∨ e = (z, v) := by
  rw [cyclicPairs_cons_append_cons]
  simp

theorem mem_whole_iff {e : Point2 K × Point2 K} : e ∈ cyclicPairs (v :: l ++ z :: m) ↔
    e ∈ links (v :: l ++ [z]) ∨ e ∈ links (z :: m ++ [v]) := by
  rw [cyclicPairs_cons_append_cons, List.mem_append]

variable [Field K] [LinearOrder K] [FloorRing K]

/-- A proper loop with a diagonal from `v` to `z`. -/
structure IsCut (v z : Point2 K) (l m : List (Point2 K)) : Prop where
  proper : IsProper (v :: l ++ z :: m)
  diagonal : ∀ e ∈ cyclicPairs (v :: l ++ z :: m), MeetAtEnds (v, z) e

namespace IsCut

theorem ne (h : IsCut v z l m) : v ≠ z := by
  have hnd := h.proper.nodup
  rintro rfl
  simp at hnd

theorem ne_of_mem (h : IsCut v z l m) (hu : u ∈ l) (hw : w ∈ z :: m ++ [v]) : u ≠ w := by
  have hnd := h.proper.nodup
  rw [List.cons_append, List.nodup_cons, List.nodup_append] at hnd
  rintro rfl
  rw [List.mem_append, List.mem_singleton] at hw
  rcases hw with hw | rfl
  · exact hnd.2.2.2 u hu u hw rfl
  · exact hnd.1 (List.mem_append_left _ hu)

variable [IsStrictOrderedRing K]

theorem symm (h : IsCut v z l m) : IsCut z v m l where
  proper := h.proper.of_isRotated List.isRotated_append
  diagonal e he := (h.diagonal e ((mem_cyclicPairs_iff List.isRotated_append).mpr he)).swap_left

theorem isProper_left (h : IsCut v z l m) (hl : l ≠ []) : IsProper
    (v :: l ++ [z]) :=
  h.proper.cut hl fun e he ↦ h.diagonal e (mem_whole_iff.mpr (.inl he))

theorem isProper_right (h : IsCut v z l m) (hm : m ≠ []) : IsProper
    (z :: m ++ [v]) :=
  h.symm.isProper_left hm

theorem avoids_parts (hq : Avoids (v :: l ++ z :: m) q) (hvz : ¬OnSegment v z q) :
    Avoids (v :: l ++ [z]) q ∧ Avoids (z :: m ++ [v]) q := by
  constructor
  · intro e he
    rcases mem_part_iff.mp he with he | rfl
    · exact hq e (mem_whole_iff.mpr (.inl he))
    · exact fun h ↦ hvz h.symm
  · intro e he
    rcases mem_part_iff.mp he with he | rfl
    · exact hq e (mem_whole_iff.mpr (.inr he))
    · exact hvz

/-- The winding number is the sum of those of the parts, for a point on the diagonal after a
small step in any direction that leads off it. -/
theorem exists_winding_add (hq : Avoids (v :: l ++ z :: m) q) (hc : doubleArea v z c ≠ 0) :
    ∃ r, OnSegment q c r ∧ Avoids (v :: l ++ [z]) r ∧ Avoids (z :: m ++ [v]) r ∧
      winding (v :: l ++ z :: m) q = winding (v :: l ++ [z]) r + winding (z :: m ++ [v]) r := by
  by_cases hvz : OnSegment v z q
  · obtain ⟨s, hs0, hs1, hs⟩ := exists_apart_of_off hq c
    have hoff : ¬OnSegment v z (lerp q c s) := by
      intro h
      have h0 := h.doubleArea_eq_zero
      rw [doubleArea_lerp, hvz.doubleArea_eq_zero, mul_zero, zero_add] at h0
      exact (mul_ne_zero hs0.ne' hc) h0
    have hr : Avoids (v :: l ++ z :: m) (lerp q c s) :=
      fun e he h ↦ hs e he _ h (onSegment_right _ _)
    obtain ⟨h1, h2⟩ := avoids_parts hr hoff
    exact ⟨_, ⟨s, hs0.le, hs1.le, rfl⟩, h1, h2, by rw [winding_eq_of_apart hs, winding_cut]⟩
  · obtain ⟨h1, h2⟩ := avoids_parts hq hvz
    exact ⟨q, onSegment_left q c, h1, h2, winding_cut v z l m q⟩

theorem meetAtEnds (h : IsCut v z l m) {e e' : Point2 K × Point2 K}
    (he : e ∈ links (v :: l ++ [z])) (he' : e' ∈ cyclicPairs (z :: m ++ [v])) :
    MeetAtEnds e e' := by
  rcases mem_part_iff.mp he' with he' | rfl
  · refine h.proper.meet e (mem_whole_iff.mpr (.inl he)) e' (mem_whole_iff.mpr (.inr he')) ?_
    rintro rfl
    have hl := fst_mem_of_mem_links_concat he
    have hm := fst_mem_of_mem_links_concat he'
    rcases List.mem_cons.mp hl with hv | hl
    · rcases List.mem_cons.mp hm with hz | hm
      · exact h.ne (hv.symm.trans hz)
      · exact h.symm.ne_of_mem hm (by simp) hv
    · exact h.ne_of_mem hl (List.mem_append_left _ hm) rfl
  · exact (h.diagonal e (mem_whole_iff.mpr (.inl he))).symm

theorem avoids_of_mem (h : IsCut v z l m) (hu : u ∈ l) : Avoids
    (z :: m ++ [v]) u := by
  obtain ⟨w, hw⟩ := exists_mem_links (List.mem_cons_of_mem v hu) z
  intro e he hue
  rcases (h.meetAtEnds hw he u (onSegment_left u w) hue).2 with hend | hend
  · exact h.ne_of_mem hu (fst_mem_of_mem_cyclicPairs he) hend
  · exact h.ne_of_mem hu (snd_mem_of_mem_cyclicPairs he) hend

/-- **The other part winds around all of them equally often.** -/
theorem winding_eq_of_mem (h : IsCut v z l m) (hu : u ∈ l) (hw : w ∈ l) :
    winding (z :: m ++ [v]) u = winding (z :: m ++ [v]) w := by
  refine eq_of_links (fun e he ↦ winding_eq_of_apart fun e' he' ↦ ?_) hu hw
  have hmeet := h.meetAtEnds (e := e) ?_ he'
  · have h1 := fst_mem_of_mem_links he
    have h2 : e.2 ∈ l := by
      cases l with
      | nil => exact absurd hu List.not_mem_nil
      | cons a l => exact List.mem_cons_of_mem _ (snd_mem_of_mem_links he)
    have hfst := fst_mem_of_mem_cyclicPairs he'
    have hsnd := snd_mem_of_mem_cyclicPairs he'
    exact (hmeet.apart ⟨h.ne_of_mem h1 hfst, h.ne_of_mem h1 hsnd⟩
      ⟨h.ne_of_mem h2 hfst, h.ne_of_mem h2 hsnd⟩).symm
  · cases l with
    | nil => exact absurd hu List.not_mem_nil
    | cons a l => exact List.mem_cons_of_mem _ (mem_links_append_left he [z])

end IsCut

end Polyline

end SolidModel
