import Mathlib
import SolidModel.Proofs.Polygon.Direction

/-!
# The inside of a clockwise loop

A proper clockwise loop stays one when a corner without area or a vacant corner is cut off,
whichever corner that is. Cutting off one ear after another shows that the loop winds minus once
around some points, those inside, and not at all around the others.
-/

namespace SolidModel

open Point2
open VectorOps (lerp)

namespace Polyline

variable {K : Type} [Field K] [LinearOrder K] [IsStrictOrderedRing K] [FloorRing K]
variable {a b c q t x y : Point2 K} {loop l m : List (Point2 K)}

namespace RunsClockwise

/-! ## Cutting corners off -/

theorem rest_of_flat (hP : IsProper (a :: t :: b :: l)) (h : RunsClockwise (a :: t :: b :: l))
    (hl : l ≠ []) (hD : doubleArea a t b = 0) : RunsClockwise (a :: b :: l) := by
  have harea : doubledArea (a :: t :: b :: l) = doubledArea (a :: b :: l) := by
    have hrot : b :: l ++ [a] ~r a :: b :: l := List.isRotated_concat a (b :: l)
    rw [← doubledArea_of_isRotated hrot, ← zero_add (doubledArea (b :: l ++ [a])), ← hD,
      ← doubledArea_triangle]
    exact doubledArea_cut a b [t] l
  exact (hP.rest_of_flat hl hD).runsClockwise (harea ▸ h.doubledArea_neg)

theorem not_inHull_middle (hP : IsProper (a :: t :: b :: c :: l)) (hD : doubleArea a t b < 0)
    (hvac : IsVacant (a :: t :: b :: c :: l) a t b) : ¬InHull a t b (middle b c) := by
  have hcorner := isCorner_cons a t b (c :: l)
  have hnd := hP.nodup
  simp only [List.nodup_cons, List.mem_cons, not_or] at hnd
  have hbne : b ≠ c := hnd.2.2.1.1
  have hm := onSegment_middle b c
  have hbc : (b, c) ∈ cyclicPairs (a :: t :: b :: c :: l) := mem_of_mem_rest (by simp)
  intro hin
  rcases ((inHull_iff hD).mp hin).2.2.eq_or_lt with h0 | h0
  · have hDb : doubleArea b a t < 0 := by rwa [doubleArea_rotate]
    have hab := (hin.rotate.rotate.onSegment_of_line hDb h0).symm
    have hmeet := hcorner.meetAtEnds_base hP hD hvac (by simp) _ hbc
    exact (hmeet _ hab hm).2.elim (middle_ne_left hbne) (middle_ne_right hbne)
  · exact (hcorner.end_eq_tip hP hD hvac hbc hm hin h0).elim (Ne.symm hnd.2.1.1)
      (Ne.symm hnd.2.1.2.1)

theorem not_onSegment_middle (hP : IsProper loop) {e e' : Point2 K × Point2 K}
    (he : e ∈ cyclicPairs loop) (he' : e' ∈ cyclicPairs loop) (hne : e ≠ e') :
    ¬OnSegment e'.1 e'.2 (middle e.1 e.2) := by
  intro h
  have hends := hP.fst_ne_snd he
  exact (hP.meet e he e' he' hne _ (onSegment_middle _ _) h).1.elim (middle_ne_left hends)
    (middle_ne_right hends)

/-- **A vacant corner cut off** leaves a clockwise loop: one that runs the other way would wind
around some point next to the edge behind the corner, and so would the loop before. -/
theorem rest_of_vacant (hP : IsProper (a :: t :: b :: l)) (h : RunsClockwise (a :: t :: b :: l))
    (hl : l ≠ []) (hD : doubleArea a t b < 0) (hvac : IsVacant (a :: t :: b :: l) a t b) :
    RunsClockwise (a :: b :: l) := by
  have hQ := hP.rest_of_vacant hl hD hvac
  refine hQ.runsClockwise_or_reverse.resolve_right fun hrev ↦ ?_
  obtain ⟨c, l, rfl⟩ := List.exists_cons_of_ne_nil hl
  have hout := not_inHull_middle hP hD hvac
  have hrot : a :: b :: c :: l ~r b :: c :: (l ++ [a]) :=
    (List.isRotated_concat a (b :: c :: l)).symm
  have hQ' := hQ.of_isRotated hrot
  have hbc : (b, c) ∈ cyclicPairs (b :: c :: (l ++ [a])) := by
    rw [cyclicPairs_rest]
    exact List.mem_cons_self
  have hoff : ∀ e ∈ links (c :: (l ++ [a]) ++ [b]) ++ [(a, t), (t, b), (b, a)],
      ¬OnSegment e.1 e.2 (middle b c) := by
    intro e he hme
    simp only [List.mem_append, List.mem_cons, List.not_mem_nil, or_false] at he
    rcases he with he | rfl | rfl | rfl
    · have hne : (b, c) ≠ e := by
        rintro rfl
        exact (List.nodup_cons.mp hQ'.nodup).1 (fst_mem_of_mem_links_concat he)
      refine not_onSegment_middle hQ' hbc ?_ hne hme
      rw [cyclicPairs_rest]
      exact List.mem_cons_of_mem _ he
    · exact hout ((inHull_left a t b).of_onSegment (inHull_middle a t b) hme)
    · exact hout ((inHull_middle a t b).of_onSegment (inHull_right a t b) hme)
    · exact hout ((inHull_right a t b).of_onSegment (inHull_left a t b) hme)
  have hbne : b ≠ c := hQ'.fst_ne_snd hbc
  obtain ⟨x, y, -, -, hnear, ⟨hx, hy⟩, hcount⟩ := exists_sides _ (onSegment_middle b c)
    (middle_ne_left hbne) (middle_ne_right hbne) (fun e he ↦ List.mem_append_left _ he) hoff
  -- nothing of the corner is between the middle of the edge and `x`
  have hcorner : ∀ e ∈ cyclicPairs [a, t, b], Apart e.1 e.2 (middle b c) x := by
    intro e he
    refine (hnear e (List.mem_append_right _ ?_)).1
    simpa [cyclicPairs_corner] using he
  have hxP : Avoids (a :: t :: b :: c :: l) x := by
    refine ((avoids_of_isRotated hrot x).mpr hx).of_rest ?_ ?_
    · exact fun h ↦ hcorner (a, t) (by simp [cyclicPairs_corner]) x h (onSegment_right _ x)
    · exact fun h ↦ hcorner (t, b) (by simp [cyclicPairs_corner]) x h (onSegment_right _ x)
  have htriangle : winding [a, t, b] x = 0 := by
    rw [← winding_triangle_of_not_inHull hD.le hout]
    exact (winding_eq_of_apart hcorner).symm
  have hwhole : winding (a :: t :: b :: c :: l) x
      = winding [a, t, b] x + winding (b :: c :: (l ++ [a])) x := winding_cut a b [t] (c :: l) x
  have h1 := h.winding_nonpos x hxP
  have h2 := hrev.winding_nonpos y (avoids_reverse_iff.mpr ((avoids_of_isRotated hrot y).mpr hy))
  rw [winding_reverse, winding_of_isRotated hrot] at h2
  rw [hwhole, htriangle, hcount] at h1
  omega

/-! ## Inside and outside -/

/-- The winding number is that of the corner and that of the rest, for a point on the cut after a
small step off it. -/
theorem exists_winding_corner_add (hD : doubleArea a t b < 0) (hq : Avoids (a :: t :: b :: l) q) :
    ∃ r, Avoids [a, t, b] r ∧ Avoids (a :: b :: l) r ∧
      winding (a :: t :: b :: l) q = winding [a, t, b] r + winding (a :: b :: l) r := by
  have hrest : b :: l ++ [a] ~r a :: b :: l := List.isRotated_concat a (b :: l)
  have hoff : doubleArea a b t ≠ 0 := by
    rw [doubleArea_rotate, doubleArea_rotate, doubleArea_swap]
    exact neg_ne_zero.mpr hD.ne
  obtain ⟨r, -, hr1, hr2, hsum⟩ := IsCut.exists_winding_add (l := [t]) (m := l) hq hoff
  rw [winding_of_isRotated hrest] at hsum
  exact ⟨r, hr1, (avoids_of_isRotated hrest r).mp hr2, hsum⟩

theorem winding_corner_add_le (hP : IsProper (a :: t :: b :: l)) (hl : l ≠ [])
    (hD : doubleArea a t b < 0) (hvac : IsVacant (a :: t :: b :: l) a t b)
    (hrest : ∀ q, Avoids (a :: b :: l) q → -1 ≤ winding (a :: b :: l) q)
    (hq1 : Avoids [a, t, b] q) (hq2 : Avoids (a :: b :: l) q) :
    -1 ≤ winding [a, t, b] q + winding (a :: b :: l) q := by
  by_cases hin : InHull a t b q
  · have hside : doubleArea b a q < 0 := by
      have hDb : doubleArea b a t < 0 := by rwa [doubleArea_rotate]
      refine ((inHull_iff hD).mp hin).2.2.lt_of_ne fun h0 ↦ ?_
      exact (avoids_rest_iff.mp hq2).1 (hin.rotate.rotate.onSegment_of_line hDb h0).symm
    obtain ⟨y, hy, hbeyond⟩ := exists_beyond hP hl hD hvac
    rw [winding_triangle_of_inHull hD.le hq1 hin, hbeyond q hin hside]
    linarith [hrest y hy]
  · rw [winding_triangle_of_not_inHull hD.le hin, zero_add]
    exact hrest q hq2

/-- **A clockwise loop winds at most once around a point.** -/
theorem neg_one_le_winding {n : ℕ} (hn : loop.length ≤ n) (hP : IsProper loop)
    (h : RunsClockwise loop) (hq : Avoids loop q) : -1 ≤ winding loop q := by
  induction n generalizing loop q with
  | zero =>
    have := hP.three_le
    omega
  | succ n ih =>
    obtain ⟨e, he⟩ := hP.exists_edge
    obtain ⟨a, t, b, hear, -⟩ := h.exists_ear e he
    obtain ⟨l, hrot⟩ :=
      exists_isRotated_of_corner hP.nodup hP.three_le hear.corner.1 hear.corner.2
    have hD := hear.clockwise
    rw [avoids_of_isRotated hrot] at hq
    rw [winding_of_isRotated hrot]
    rcases eq_or_ne l [] with rfl | hl
    · by_cases hin : InHull a t b q
      · rw [winding_triangle_of_inHull hD.le hq hin]
      · rw [winding_triangle_of_not_inHull hD.le hin]
        norm_num
    · have hP := hP.of_isRotated hrot
      have hvac := hear.vacant.of_isRotated hrot
      have hlen : (a :: b :: l).length ≤ n := by
        rw [hrot.perm.length_eq] at hn
        simp only [List.length_cons] at hn ⊢
        omega
      have hQ := hP.rest_of_vacant hl hD hvac
      have hQc := rest_of_vacant hP (h.of_isRotated hrot) hl hD hvac
      obtain ⟨r, hr1, hr2, hsum⟩ := exists_winding_corner_add hD hq
      rw [hsum]
      exact winding_corner_add_le hP hl hD hvac (fun q hq ↦ ih hlen hQ hQc hq) hr1 hr2

end RunsClockwise

/-- Is `q` inside the loop? Then the ray from `q` to the left crosses an odd number of edges. -/
def IsInside (loop : List (Point2 K)) (q : Point2 K) : Prop :=
  Odd ((cyclicPairs loop).countP fun e ↦ Rises q e.1 e.2 ∨ Rises q e.2 e.1)

instance (loop : List (Point2 K)) (q : Point2 K) : Decidable (IsInside loop q) :=
  inferInstanceAs (Decidable (Odd _))

/-- The winding number has the parity of the number of edges that cross the ray. -/
theorem isInside_iff_odd_winding : IsInside loop q ↔ Odd (winding loop q) := by
  rw [IsInside, winding, edgeSum]
  induction cyclicPairs loop with
  | nil => simp
  | cons e edges ih =>
    rw [List.countP_cons, List.map_cons, List.sum_cons, Int.odd_add, Nat.odd_add, ih]
    have hboth : ¬(Rises q e.1 e.2 ∧ Rises q e.2 e.1) := by
      rintro ⟨h1, h2⟩
      linarith [h1.1, h1.2.1, h2.1, h2.2.1]
    by_cases h1 : Rises q e.1 e.2
    · have h2 : ¬Rises q e.2 e.1 := fun h2 ↦ hboth ⟨h1, h2⟩
      simp [crossing, h1, h2]
    · by_cases h2 : Rises q e.2 e.1
      · simp [crossing, h1, h2]
      · simp [crossing, h1, h2]

/-- **Inside and outside.** A simple clockwise loop winds minus once around the points inside and
not at all around those outside. -/
theorem IsSimple.winding_eq (h : IsSimple loop) (harea : doubledArea loop < 0)
    (hq : Avoids loop q) : (IsInside loop q → winding loop q = -1) ∧
      (¬IsInside loop q → winding loop q = 0) := by
  have hP := h.isProper harea.ne
  have hcw := hP.runsClockwise harea
  have h1 := hcw.winding_nonpos q hq
  have h2 := RunsClockwise.neg_one_le_winding le_rfl hP hcw hq
  rw [isInside_iff_odd_winding]
  obtain h0 | h0 : winding loop q = -1 ∨ winding loop q = 0 := by omega
  · rw [h0]
    simp
  · rw [h0]
    simp

end Polyline

end SolidModel
