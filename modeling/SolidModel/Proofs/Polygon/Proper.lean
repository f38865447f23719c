import Mathlib
import SolidModel.Proofs.Plane.Area
import SolidModel.Proofs.Plane.Hull

/-!
# Simple polygons

A loop is *simple* if its points differ and edges without a common end do not meet. Of a simple
loop with an area more is true: any two of its edges meet at most in a common end, since edges
that follow each other cannot lie on top of each other. This is the notion that arguments need,
see `IsProper`, and it does not depend on where the loop starts or which way it runs.

A proper loop cut along a segment that meets its edges only in their ends falls into two proper
loops. The edges cut off need not be looked at, so that the same lemma takes out a vertex in the
middle of a straight side.
-/

namespace SolidModel

open Point2
open VectorOps (lerp)

namespace Polyline

variable {K : Type} [Field K] [LinearOrder K] [FloorRing K]
variable {a b c d q u : Point2 K} {loop l m : List (Point2 K)}

/-! ## Edges that meet in their ends -/

/-- Have the two edges no points in common but common ends? -/
def MeetAtEnds (e e' : Point2 K × Point2 K) : Prop :=
  ∀ q, OnSegment e.1 e.2 q → OnSegment e'.1 e'.2 q → (q = e.1 ∨ q = e.2) ∧ (q = e'.1 ∨ q = e'.2)

theorem MeetAtEnds.symm {e e' : Point2 K × Point2 K} (h : MeetAtEnds e e') : MeetAtEnds e' e :=
  fun q hq hq' ↦ (h q hq' hq).symm

theorem MeetAtEnds.swap_left [IsStrictOrderedRing K] {e e' : Point2 K × Point2 K}
    (h : MeetAtEnds e e') :
    MeetAtEnds e.swap e' := fun q hq hq' ↦ (h q hq.symm hq').imp_left Or.symm

theorem MeetAtEnds.swap_right [IsStrictOrderedRing K] {e e' : Point2 K × Point2 K}
    (h : MeetAtEnds e e') :
    MeetAtEnds e e'.swap := fun q hq hq' ↦ (h q hq hq'.symm).imp_right Or.symm

theorem MeetAtEnds.apart {e e' : Point2 K × Point2 K} (h : MeetAtEnds e e')
    (h1 : e.1 ≠ e'.1 ∧ e.1 ≠ e'.2) (h2 : e.2 ≠ e'.1 ∧ e.2 ≠ e'.2) :
    Apart e.1 e.2 e'.1 e'.2 := by
  intro q hq hq'
  obtain ⟨rfl | rfl, h | h⟩ := h q hq hq'
  · exact h1.1 h
  · exact h1.2 h
  · exact h2.1 h
  · exact h2.2 h

/-- At least three points, all different, and edges that meet at most in common ends. -/
structure IsProper (loop : List (Point2 K)) : Prop where
  three_le : 3 ≤ loop.length
  nodup : loop.Nodup
  meet : ∀ e ∈ cyclicPairs loop, ∀ e' ∈ cyclicPairs loop, e ≠ e' → MeetAtEnds e e'

namespace IsProper

theorem of_isRotated (h : IsProper l) (hrot : l ~r m) : IsProper m where
  three_le := hrot.perm.length_eq ▸ h.three_le
  nodup := hrot.nodup_iff.mp h.nodup
  meet e he e' he' := h.meet e ((mem_cyclicPairs_iff hrot).mpr he) e'
    ((mem_cyclicPairs_iff hrot).mpr he')

theorem exists_edge (h : IsProper loop) : ∃ e, e ∈ cyclicPairs loop := by
  have := h.three_le
  exact List.exists_mem_of_length_pos (by rw [length_cyclicPairs]; omega)

theorem eq_of_onSegment (h : IsProper loop) {e : Point2 K × Point2 K}
    (he : e ∈ cyclicPairs loop) (hu : u ∈ loop) (heu : OnSegment e.1 e.2 u) :
    u = e.1 ∨ u = e.2 := by
  obtain ⟨l, hrot⟩ := exists_isRotated_of_mem hu
  obtain ⟨w, n, hn⟩ := List.exists_cons_of_ne_nil (l := l ++ [u]) (by simp)
  have hedge : (u, w) ∈ cyclicPairs loop := by
    rw [mem_cyclicPairs_iff hrot, cyclicPairs_cons, List.cons_append, hn]
    exact List.mem_cons_self
  by_cases hne : e = (u, w)
  · exact .inl (by rw [hne])
  · exact (h.meet e he _ hedge hne u heu (onSegment_left u w)).1

theorem apart (h : IsProper loop) {e e' : Point2 K × Point2 K} (he : e ∈ cyclicPairs loop)
    (he' : e' ∈ cyclicPairs loop) (h1 : e.1 ≠ e'.1 ∧ e.1 ≠ e'.2) (h2 : e.2 ≠ e'.1 ∧ e.2 ≠ e'.2) :
    Apart e.1 e.2 e'.1 e'.2 :=
  (h.meet e he e' he' fun heq ↦ h1.1 (congrArg Prod.fst heq)).apart h1 h2

theorem fst_ne_snd (h : IsProper loop) {e : Point2 K × Point2 K} (he : e ∈ cyclicPairs loop) :
    e.1 ≠ e.2 := by
  obtain ⟨l, hrot⟩ := exists_isRotated_of_mem_cyclicPairs h.nodup (by have := h.three_le; omega)
    (a := e.1) (b := e.2) he
  have hnd := hrot.nodup_iff.mp h.nodup
  exact fun heq ↦ (List.nodup_cons.mp hnd).1 (heq ▸ List.mem_cons_self)

variable [IsStrictOrderedRing K]

theorem reverse (h : IsProper l) : IsProper l.reverse where
  three_le := by rw [List.length_reverse]; exact h.three_le
  nodup := List.nodup_reverse.mpr h.nodup
  meet e he e' he' hne := (h.meet e.swap (mem_cyclicPairs_reverse_iff.mp he) e'.swap
    (mem_cyclicPairs_reverse_iff.mp he') (Prod.swap_injective.ne hne)).swap_left.swap_right

/-- **Cutting.** A loop cut off along a segment that meets its edges only in their ends. -/
theorem cut (h : IsProper (a :: l ++ b :: m)) (hl : l ≠ [])
    (hdiag : ∀ e ∈ links (a :: l ++ [b]), MeetAtEnds (a, b) e) : IsProper (a :: l ++ [b]) := by
  have hsub : (a :: l ++ [b]).Sublist (a :: l ++ b :: m) :=
    (List.Sublist.refl _).append ((List.nil_sublist m).cons_cons b)
  have hedges : cyclicPairs (a :: l ++ [b]) = links (a :: l ++ [b]) ++ [(b, a)] :=
    cyclicPairs_cons_append_cons a b l []
  have hold : ∀ e ∈ links (a :: l ++ [b]), e ∈ cyclicPairs (a :: l ++ b :: m) := by
    intro e he
    rw [cyclicPairs_cons_append_cons]
    exact List.mem_append_left _ he
  refine ⟨?_, h.nodup.sublist hsub, ?_⟩
  · have := List.length_pos_iff.mpr hl
    simp only [List.length_append, List.length_cons, List.length_nil]
    omega
  · intro e he e' he' hne
    rw [hedges, List.mem_append, List.mem_singleton] at he he'
    rcases he with he | rfl <;> rcases he' with he' | rfl
    · exact h.meet e (hold e he) e' (hold e' he') hne
    · exact (hdiag e he).symm.swap_right
    · exact (hdiag e' he').swap_left
    · exact absurd rfl hne

end IsProper

/-! ## Simple loops -/

/-- At least three points, all different, and edges without a common end do not meet. -/
structure IsSimple (loop : List (Point2 K)) : Prop where
  three_le : 3 ≤ loop.length
  nodup : loop.Nodup
  apart : ∀ e ∈ cyclicPairs loop, ∀ e' ∈ cyclicPairs loop, e.1 ≠ e'.1 → e.1 ≠ e'.2 →
    e.2 ≠ e'.1 → e.2 ≠ e'.2 → Apart e.1 e.2 e'.1 e'.2

variable [IsStrictOrderedRing K]

/-- A test for given loops: one of any two edges without a common end is to one side of the
other. -/
theorem IsSimple.of_mul_pos (h3 : 3 ≤ loop.length) (hnd : loop.Nodup)
    (h : ∀ e ∈ cyclicPairs loop, ∀ e' ∈ cyclicPairs loop, e.1 ≠ e'.1 → e.1 ≠ e'.2 →
      e.2 ≠ e'.1 → e.2 ≠ e'.2 → 0 < doubleArea e.1 e.2 e'.1 * doubleArea e.1 e.2 e'.2 ∨
        0 < doubleArea e'.1 e'.2 e.1 * doubleArea e'.1 e'.2 e.2) : IsSimple loop :=
  ⟨h3, hnd, fun e he e' he' h1 h2 h3 h4 ↦ apart_of_mul_pos (h e he e' he' h1 h2 h3 h4)⟩

private theorem onSegment_or_onSegment (hqa : OnSegment b a q) (hqc : OnSegment b c q)
    (hqb : q ≠ b) : OnSegment b c a ∨ OnSegment b a c := by
  obtain ⟨s, hs0, hs1, rfl⟩ := hqa
  obtain ⟨r, hr0, hr1, hq⟩ := hqc
  have hs : 0 < s := hs0.lt_of_ne fun h ↦ hqb (by rw [← h, lerp_zero])
  have hr : 0 < r := hr0.lt_of_ne fun h ↦ hqb (by rw [hq, ← h, lerp_zero])
  have hscale : ∀ {a c : Point2 K} {r s : K}, 0 < s → 0 ≤ r → r ≤ s →
      lerp b a s = lerp b c r → OnSegment b c a := by
    intro a c r s hs hr hrs hq
    refine ⟨r / s, div_nonneg hr hs.le, (div_le_one hs).mpr hrs, ?_⟩
    rw [ext_iff', lerp_x, lerp_x, lerp_y, lerp_y] at hq
    rw [ext_iff', lerp_x, lerp_y, mul_div_assoc', mul_div_assoc', ← sub_eq_iff_eq_add',
      ← sub_eq_iff_eq_add', eq_div_iff hs.ne', eq_div_iff hs.ne']
    exact ⟨by linarith [hq.1], by linarith [hq.2]⟩
  rcases le_total r s with hrs | hrs
  · exact .inl (hscale hs hr0 hrs hq)
  · exact .inr (hscale hr hs0 hrs hq.symm)

/-- Edges that follow each other meet in their common end only: if they lay on top of each other
then so would an edge next to them, or the loop would be a triangle without area. -/
theorem IsSimple.meet_next (h : IsSimple loop) (harea : doubledArea loop ≠ 0)
    (hab : (a, b) ∈ cyclicPairs loop) (hbc : (b, c) ∈ cyclicPairs loop) :
    MeetAtEnds (a, b) (b, c) := by
  obtain ⟨n, hrot⟩ := exists_isRotated_of_corner h.nodup h.three_le hab hbc
  have hnd := hrot.nodup_iff.mp h.nodup
  intro q hq hq'
  suffices hqb : q = b from ⟨.inr hqb, .inl hqb⟩
  by_contra hqb
  have hover := onSegment_or_onSegment hq.symm hq' hqb
  rcases List.eq_nil_or_concat' n with rfl | ⟨n, z, rfl⟩
  · rw [doubledArea_of_isRotated hrot, doubledArea_triangle] at harea
    rcases hover with hover | hover
    · rw [doubleArea_rotate, hover.doubleArea_eq_zero] at harea
      exact harea rfl
    · rw [doubleArea_swap, hover.doubleArea_eq_zero, neg_zero] at harea
      exact harea rfl
  · simp only [List.nodup_cons, List.mem_cons, List.mem_append, List.not_mem_nil, or_false,
      not_or] at hnd
    obtain ⟨⟨hab', hac', -, haz⟩, ⟨hbc', hbn, hbz⟩, ⟨hcn, hcz⟩, -⟩ := hnd
    rcases hover with hover | hover
    · have hza : (z, a) ∈ cyclicPairs loop := by
        rw [mem_cyclicPairs_iff hrot, show a :: b :: c :: (n ++ [z]) = (a :: b :: c :: n) ++ z :: []
          by simp, cyclicPairs_cons_append_cons]
        simp
      exact h.apart _ hza _ hbc (Ne.symm hbz) (Ne.symm hcz) hab' hac' a (onSegment_right z a) hover
    · obtain ⟨d, k, hk⟩ := List.exists_cons_of_ne_nil (l := n ++ [z]) (by simp)
      have hd : d ∈ n ++ [z] := hk ▸ List.mem_cons_self
      have hne : ∀ u, u ∉ n → u ≠ z → u ≠ d := by
        rintro u hun huz rfl
        rcases List.mem_append.mp hd with hd | hd
        · exact hun hd
        · exact huz (List.mem_singleton.mp hd)
      have hcd : (c, d) ∈ cyclicPairs loop := by
        rw [mem_cyclicPairs_iff hrot, hk, cyclicPairs_cons]
        simp
      have had : a ≠ d := by
        rintro rfl
        exact (List.nodup_cons.mp (hrot.nodup_iff.mp h.nodup)).1 (by simp [hk])
      exact h.apart _ hab _ hcd hac' had hbc' (hne b hbn hbz) c hover.symm (onSegment_left c d)

/-- **Simple loops with an area are proper.** -/
theorem IsSimple.isProper (h : IsSimple loop) (harea : doubledArea loop ≠ 0) : IsProper loop where
  three_le := h.three_le
  nodup := h.nodup
  meet := by
    rintro ⟨a, b⟩ he ⟨c, d⟩ he' hne
    have h1 : a ≠ c := by
      rintro rfl
      exact hne (by rw [eq_of_mem_cyclicPairs h.nodup he he'])
    have h2 : b ≠ d := by
      rintro rfl
      exact hne (by rw [eq_of_mem_cyclicPairs' h.nodup he he'])
    by_cases hbc : b = c
    · subst hbc
      exact h.meet_next harea he he'
    by_cases hda : d = a
    · subst hda
      exact (h.meet_next harea he' he).symm
    · exact fun q hq hq' ↦ absurd hq' (h.apart _ he _ he' h1 (Ne.symm hda) hbc h2 q hq)

end Polyline

end SolidModel
