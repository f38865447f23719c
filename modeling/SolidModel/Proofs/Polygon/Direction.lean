import Mathlib
import SolidModel.Proofs.Polygon.Clockwise

/-!
# Every proper loop runs one way

The leftmost vertex of a proper loop decides: if the loop turns clockwise there then it runs
clockwise, see `turnDecides`. The proof is an induction on the number of points that cuts the
loop along a diagonal. If no other vertex is in the triangle at the leftmost vertex then that
triangle is cut off, and the rest cannot run counter-clockwise, since it would then wind around
the leftmost vertex. Otherwise the diagonal leads from the leftmost vertex to the furthest
vertex in the triangle, and both parts turn clockwise at their leftmost vertex, which is the
same one.
-/

namespace SolidModel

open Point2

namespace Polyline

variable {K : Type} {a b p q u v w z : Point2 K} {loop l m : List (Point2 K)}

private theorem isCorner_leftmost (v q p : Point2 K) (m : List (Point2 K)) :
    IsCorner (v :: q :: m ++ [p]) p v q := by
  have hrot : v :: q :: m ++ [p] ~r p :: v :: q :: m := List.isRotated_concat p (v :: q :: m)
  exact (isCorner_cons p v q m).of_isRotated hrot.symm

private theorem isCorner_diagonal (v q z p : Point2 K) (l n : List (Point2 K)) :
    IsCorner (v :: (q :: l) ++ z :: (n ++ [p])) p v q := by
  have hlist : v :: (q :: l) ++ z :: (n ++ [p]) = v :: q :: (l ++ z :: n) ++ [p] := by simp
  rw [hlist]
  exact isCorner_leftmost v q p (l ++ z :: n)

variable [Field K] [LinearOrder K] [FloorRing K]

/-! ## The leftmost vertex -/

theorem Precedes.trans (h : Precedes p q) (h' : Precedes q u) : Precedes p u := by
  rcases h with h | ⟨h, hy⟩ <;> rcases h' with h' | ⟨h', hy'⟩
  · exact .inl (h.trans h')
  · exact .inl (h' ▸ h)
  · exact .inl (h ▸ h')
  · exact .inr ⟨h.trans h', hy.trans hy'⟩

private theorem precedes_or_eq_or_precedes (p q : Point2 K) :
    Precedes p q ∨ p = q ∨ Precedes q p := by
  rcases lt_trichotomy p.x q.x with h | h | h
  · exact .inl (.inl h)
  · rcases lt_trichotomy p.y q.y with hy | hy | hy
    · exact .inl (.inr ⟨h, hy⟩)
    · exact .inr (.inl (ext_iff'.mpr ⟨h, hy⟩))
    · exact .inr (.inr (.inr ⟨h.symm, hy⟩))
  · exact .inr (.inr (.inl h))

theorem Precedes.ne (h : Precedes p q) : p ≠ q := by
  rintro rfl
  rcases h with h | ⟨-, h⟩
  · exact h.false
  · exact h.false

theorem exists_leftmost (hl : l ≠ []) : ∃ v ∈ l, ∀ u ∈ l, u = v ∨ Precedes v u := by
  induction l with
  | nil => exact absurd rfl hl
  | cons a l ih =>
    rcases eq_or_ne l [] with rfl | hl
    · exact ⟨a, by simp, by simp⟩
    obtain ⟨v, hv, hmin⟩ := ih hl
    rcases precedes_or_eq_or_precedes a v with h | rfl | h
    · refine ⟨a, List.mem_cons_self, fun u hu ↦ ?_⟩
      rcases List.mem_cons.mp hu with rfl | hu
      · exact .inl rfl
      · rcases hmin u hu with rfl | hvu
        · exact .inr h
        · exact .inr (h.trans hvu)
    · refine ⟨a, List.mem_cons_self, fun u hu ↦ ?_⟩
      rcases List.mem_cons.mp hu with rfl | hu
      · exact .inl rfl
      · exact hmin u hu
    · refine ⟨v, List.mem_cons_of_mem a hv, fun u hu ↦ ?_⟩
      rcases List.mem_cons.mp hu with rfl | hu
      · exact .inr h
      · exact hmin u hu

theorem IsProper.exists_isRotated_leftmost (h : IsProper loop) : ∃ v q m p,
    loop ~r v :: q :: m ++ [p] ∧ ∀ u ∈ q :: m ++ [p], Precedes v u := by
  have h3 := h.three_le
  obtain ⟨v, hv, hmin⟩ := exists_leftmost (l := loop) (by rintro rfl; simp at h3)
  obtain ⟨l, hrot⟩ := exists_isRotated_of_mem hv
  rw [hrot.perm.length_eq] at h3
  obtain ⟨q, l, rfl⟩ := List.exists_cons_of_ne_nil (l := l) (by rintro rfl; simp at h3)
  rcases List.eq_nil_or_concat' l with rfl | ⟨m, p, rfl⟩
  · simp at h3
  · refine ⟨v, q, m, p, hrot, fun u hu ↦ ?_⟩
    refine (hmin u (hrot.mem_iff.mpr (List.mem_cons_of_mem v hu))).resolve_left ?_
    rintro rfl
    exact (List.nodup_cons.mp (hrot.nodup_iff.mp h.nodup)).1 hu

variable [IsStrictOrderedRing K]

theorem Precedes.onSegment (ha : Precedes v a) (hb : Precedes v b) (hq : OnSegment a b q) :
    Precedes v q := by
  obtain ⟨s, hs0, hs1, rfl⟩ := hq
  have hs1' := sub_nonneg.mpr hs1
  have hax := mul_nonneg hs1' (sub_nonneg.mpr ha.le)
  have hbx := mul_nonneg hs0 (sub_nonneg.mpr hb.le)
  rw [Precedes, lerp_x, lerp_y]
  by_cases hx : v.x < a.x + (b.x - a.x) * s
  · exact .inl hx
  -- as far left as `v`, so the ends that count are right above it
  have hend : ∀ {c : Point2 K} {r : K}, Precedes v c → 0 ≤ r → (0 < r → ¬v.x < c.x) →
      0 ≤ r * (c.y - v.y) ∧ (0 < r → 0 < r * (c.y - v.y)) := by
    intro c r hc hr hlt
    rcases hr.eq_or_lt with h0 | h0
    · rw [← h0, zero_mul]
      exact ⟨le_rfl, fun h ↦ absurd h (lt_irrefl 0)⟩
    · have hpos := mul_pos h0 (sub_pos.mpr (hc.resolve_left (hlt h0)).2)
      exact ⟨hpos.le, fun _ ↦ hpos⟩
  have hay := hend ha hs1' fun h0 hlt ↦ hx (by linarith [mul_pos h0 (sub_pos.mpr hlt)])
  have hby := hend hb hs0 fun h0 hlt ↦ hx (by linarith [mul_pos h0 (sub_pos.mpr hlt)])
  refine .inr ⟨by linarith, ?_⟩
  rcases hs0.eq_or_lt with h0 | h0
  · have := hay.2 (by linarith)
    linarith [hby.1]
  · have := hby.2 h0
    linarith [hay.1]

private theorem turn_ne_zero (h : IsProper (v :: q :: m ++ [p]))
    (hlow : ∀ u ∈ q :: m ++ [p], Precedes v u) : doubleArea p v q ≠ 0 := by
  intro hD
  obtain ⟨hpv, hvq⟩ := isCorner_leftmost v q p m
  have hp : Precedes v p := hlow p (by simp)
  have hq : Precedes v q := hlow q (by simp)
  have hnd := h.nodup
  simp only [List.cons_append, List.nodup_cons, List.mem_cons, List.mem_append, List.not_mem_nil,
    or_false, not_or] at hnd
  rcases exists_between hD with hon | hon | hon
  · rcases h.eq_of_onSegment hpv (by simp) hon with h | h
    · exact hnd.2.1.2 h
    · exact hq.ne h.symm
  · rcases h.eq_of_onSegment hvq (by simp) hon with h | h
    · exact hp.ne h.symm
    · exact hnd.2.1.2 h.symm
  · exact (hq.onSegment hp hon).ne rfl

/-! ## The induction -/

/-- Do the loops of less than `n + 3` points that turn clockwise at their leftmost vertex run
clockwise? -/
def TurnDecides (K : Type) [Field K] [LinearOrder K] [FloorRing K] (n : ℕ) : Prop :=
  ∀ (v q p : Point2 K) (m : List (Point2 K)), m.length < n → IsProper (v :: q :: m ++ [p]) →
    (∀ u ∈ q :: m ++ [p], Precedes v u) → doubleArea p v q < 0 → RunsClockwise (v :: q :: m ++ [p])

theorem TurnDecides.runsClockwise_reverse {n : ℕ} (ih : TurnDecides K n) (hm : m.length < n)
    (h : IsProper (v :: q :: m ++ [p])) (hlow : ∀ u ∈ q :: m ++ [p], Precedes v u)
    (hD : 0 < doubleArea p v q) : RunsClockwise (v :: q :: m ++ [p]).reverse := by
  have hrev : (v :: q :: m ++ [p]).reverse ~r v :: p :: m.reverse ++ [q] := by
    have hlist : (v :: q :: m ++ [p]).reverse = (p :: m.reverse ++ [q]) ++ [v] := by simp
    rw [hlist]
    exact List.isRotated_concat v (p :: m.reverse ++ [q])
  refine (ih v p q m.reverse (by rwa [List.length_reverse]) (h.reverse.of_isRotated hrev)
    (fun u hu ↦ hlow u ?_) ?_).of_isRotated hrev.symm
  · simp only [List.cons_append, List.mem_cons, List.mem_append, List.mem_reverse] at hu ⊢
    tauto
  · rw [doubleArea_rotate, doubleArea_swap]
    exact neg_lt_zero.mpr hD

theorem TurnDecides.runsClockwise_or_reverse {n : ℕ} (ih : TurnDecides K n) (h : IsProper loop)
    (hlen : loop.length < n + 3) : RunsClockwise loop ∨ RunsClockwise loop.reverse := by
  obtain ⟨v, q, m, p, hrot, hlow⟩ := h.exists_isRotated_leftmost
  have hP := h.of_isRotated hrot
  have hm : m.length < n := by
    rw [hrot.perm.length_eq, List.length_append, List.length_cons, List.length_cons,
      List.length_singleton] at hlen
    omega
  rcases (turn_ne_zero hP hlow).lt_or_gt with hD | hD
  · exact .inl ((ih v q p m hm hP hlow hD).of_isRotated hrot.symm)
  · exact .inr ((ih.runsClockwise_reverse hm hP hlow hD).of_isRotated hrot.reverse.symm)

/-- **A vacant triangle at the leftmost vertex** is cut off. -/
theorem TurnDecides.of_vacant (ih : TurnDecides K m.length) (hm : m ≠ [])
    (h : IsProper (v :: q :: m ++ [p])) (hlow : ∀ u ∈ q :: m ++ [p], Precedes v u)
    (hD : doubleArea p v q < 0) (hvac : IsVacant (v :: q :: m ++ [p]) p v q) :
    RunsClockwise (v :: q :: m ++ [p]) := by
  have hrot : v :: q :: m ++ [p] ~r p :: v :: q :: m := List.isRotated_concat p (v :: q :: m)
  have hrest : p :: q :: m ~r q :: m ++ [p] := (List.isRotated_concat p (q :: m)).symm
  have hP := h.of_isRotated hrot
  have hvac' := hvac.of_isRotated hrot
  have hQ := hP.rest_of_vacant hm hD hvac'
  have hleft : ∀ u ∈ p :: q :: m, v.x ≤ u.x := fun u hu ↦ (hlow u (hrest.mem_iff.mp hu)).le
  have hright : RunsClockwise (p :: q :: m) := by
    refine (ih.runsClockwise_or_reverse hQ (by simp)).resolve_right fun hrev ↦ ?_
    obtain ⟨y, hy, hbeyond⟩ := exists_beyond hP hm hD hvac'
    have hv := hbeyond v (inHull_middle p v q) (by rwa [doubleArea_rotate])
    have hy' := hrev.winding_nonpos y (avoids_reverse_iff.mpr hy)
    rw [winding_reverse] at hy'
    rw [winding_eq_zero_of_leftmost hleft] at hv
    omega
  have hcut : ClockwiseCut p q [v] m := by
    refine ⟨⟨hP, (isCorner_cons p v q m).meetAtEnds_base hP hD hvac' (four_le_length hm)⟩,
      runsClockwise_triangle hD, hright.of_isRotated hrest, fun u hu ↦ ?_, fun u hu ↦ ?_⟩
    · refine winding_triangle_of_not_inHull hD.le fun hin ↦ ?_
      have hnd := hP.nodup
      simp only [List.nodup_cons, List.mem_cons, not_or] at hnd
      rcases hvac' u (by simp [hu]) hin with rfl | rfl | rfl
      · exact hnd.1.2.2 hu
      · exact hnd.2.1.2 hu
      · exact hnd.2.2.1 hu
    · rw [List.mem_singleton.mp hu]
      exact winding_eq_zero_of_leftmost fun u hu ↦ hleft u (hrest.mem_iff.mpr hu)
  exact hcut.runsClockwise.of_isRotated hrot.symm

/-! ### A diagonal from the leftmost vertex

The loop is `v, q, l, z, n, p` in this order, with its leftmost vertex `v` joined to `z`. -/

section Diagonal

variable {n : List (Point2 K)}

/-- The leftmost vertex sees `p` outside the part on the side of `q`. -/
theorem IsCut.winding_left_eq_zero (hcut : IsCut v z (q :: l) (n ++ [p]))
    (hlow : ∀ u ∈ q :: l ++ z :: (n ++ [p]), Precedes v u) (hzp : z ≠ p)
    (hD : doubleArea p v q < 0) (hpz : doubleArea p v z < 0) :
    ∀ u ∈ n ++ [p], winding (v :: (q :: l) ++ [z]) u = 0 := by
  intro u hu
  have hvq : doubleArea v p q = -doubleArea p v q := doubleArea_swap p v q
  have hvz : doubleArea v p z = -doubleArea p v z := doubleArea_swap p v z
  have hapart : ∀ e ∈ links (q :: l ++ [z]), Apart e.1 e.2 p v := by
    intro e he
    have h1 : e.1 ∈ q :: l := fst_mem_of_mem_links_concat he
    have h2 : e.2 ∈ l ++ [z] := snd_mem_of_mem_links he
    refine hcut.proper.apart (mem_whole_iff.mpr (.inl (List.mem_cons_of_mem _ he)))
      (isCorner_diagonal v q z p l n).1 ⟨hcut.ne_of_mem h1 (by simp), hcut.ne_of_mem h1 (by simp)⟩ ?_
    rcases List.mem_append.mp h2 with h2 | h2
    · have h2 := List.mem_cons_of_mem q h2
      exact ⟨hcut.ne_of_mem h2 (by simp), hcut.ne_of_mem h2 (by simp)⟩
    · rw [List.mem_singleton.mp h2]
      exact ⟨hzp, hcut.ne.symm⟩
  have hsight := winding_of_sight (l := l) (hlow q (by simp)) (hlow z (by simp))
    (fun u hu ↦ (hlow u (by simp [hu])).le) (hlow p (by simp)) hapart (by linarith) (by linarith)
  rw [hcut.symm.winding_eq_of_mem hu (w := p) (by simp), hsight, if_pos (by linarith),
    if_pos (by linarith)]
  rfl

/-- And it sees `q` outside the other part. -/
theorem IsCut.winding_right_eq_zero (hcut : IsCut v z (q :: l) (n ++ [p]))
    (hlow : ∀ u ∈ q :: l ++ z :: (n ++ [p]), Precedes v u) (hzq : z ≠ q)
    (hD : doubleArea p v q < 0) (hqz : doubleArea v q z < 0) :
    ∀ u ∈ q :: l, winding (z :: (n ++ [p]) ++ [v]) u = 0 := by
  intro u hu
  have hvq : doubleArea v q p = doubleArea p v q := (doubleArea_rotate p v q).symm
  have hright : z :: (n ++ [p]) ++ [v] ~r v :: z :: n ++ [p] := by
    simpa using List.isRotated_concat v (z :: (n ++ [p]))
  have hapart : ∀ e ∈ links (z :: n ++ [p]), Apart e.1 e.2 q v := by
    intro e he
    have h1 : e.1 ∈ z :: n := fst_mem_of_mem_links_concat he
    have h2 : e.2 ∈ n ++ [p] := snd_mem_of_mem_links he
    have hmem : e ∈ links (z :: (n ++ [p]) ++ [v]) := mem_links_append_left he [v]
    refine (hcut.proper.apart (mem_whole_iff.mpr (.inr hmem)) (isCorner_diagonal v q z p l n).2 ?_
      ⟨hcut.symm.ne_of_mem h2 (by simp), hcut.symm.ne_of_mem h2 (by simp)⟩).swap_right
    rcases List.mem_cons.mp h1 with h1 | h1
    · rw [h1]
      exact ⟨hcut.ne.symm, hzq⟩
    · have h1 : e.1 ∈ n ++ [p] := List.mem_append_left _ h1
      exact ⟨hcut.symm.ne_of_mem h1 (by simp), hcut.symm.ne_of_mem h1 (by simp)⟩
  have hsight := winding_of_sight (l := n) (hlow z (by simp)) (hlow p (by simp))
    (fun u hu ↦ (hlow u (by simp [hu])).le) (hlow q (by simp)) hapart hqz.ne (by linarith)
  rw [hcut.winding_eq_of_mem hu (w := q) (by simp), winding_of_isRotated hright, hsight,
    if_neg (by linarith), if_neg (by linarith)]
  rfl

end Diagonal

/-- **Another vertex in the triangle at the leftmost vertex.** The furthest one is joined to the
leftmost vertex. -/
theorem TurnDecides.of_not_vacant (ih : TurnDecides K m.length) (h : IsProper (v :: q :: m ++ [p]))
    (hlow : ∀ u ∈ q :: m ++ [p], Precedes v u) (hD : doubleArea p v q < 0)
    (hvac : ¬IsVacant (v :: q :: m ++ [p]) p v q) : RunsClockwise (v :: q :: m ++ [p]) := by
  have hcorner := isCorner_leftmost v q p m
  obtain ⟨z, hz, hin, hne, hfar⟩ := exists_furthest hvac
  obtain ⟨hpz, hqz⟩ := hcorner.doubleArea_neg_of_inHull h hD hz hin hne
  have hdiag := hcorner.meetAtEnds_furthest h hD hz hin hne hfar
  have hzm : z ∈ m := by
    simp only [List.cons_append, List.mem_cons, List.mem_append, List.not_mem_nil,
      or_false] at hz
    tauto
  obtain ⟨l, n, rfl⟩ := List.append_of_mem hzm
  have hlist : v :: q :: (l ++ z :: n) ++ [p] = v :: (q :: l) ++ z :: (n ++ [p]) := by simp
  have hlist' : q :: (l ++ z :: n) ++ [p] = q :: l ++ z :: (n ++ [p]) := by simp
  rw [hlist] at h hdiag ⊢
  rw [hlist'] at hlow
  have hcut : IsCut v z (q :: l) (n ++ [p]) := ⟨h, hdiag⟩
  have hright : z :: (n ++ [p]) ++ [v] ~r v :: z :: n ++ [p] := by
    simpa using List.isRotated_concat v (z :: (n ++ [p]))
  have hlen : n.length < (l ++ z :: n).length := by
    rw [List.length_append, List.length_cons]
    omega
  refine ClockwiseCut.runsClockwise ⟨hcut, ?_, ?_, ?_, ?_⟩
  · refine ih v q z l (by simp) (hcut.isProper_left (by simp)) (fun u hu ↦ hlow u ?_)
      (by rwa [doubleArea_rotate])
    simp only [List.cons_append, List.mem_cons, List.mem_append, List.not_mem_nil,
      or_false] at hu ⊢
    tauto
  · refine (ih v z p n hlen ((hcut.isProper_right (by simp)).of_isRotated hright)
      (fun u hu ↦ hlow u ?_) hpz).of_isRotated hright.symm
    exact List.mem_append_right _ hu
  · exact hcut.winding_left_eq_zero hlow hne.1 hD hpz
  · exact hcut.winding_right_eq_zero hlow hne.2.2 hD hqz

/-- **The turn at the leftmost vertex decides.** -/
theorem turnDecides (n : ℕ) : TurnDecides K n := by
  induction n with
  | zero => exact fun v q p m hm ↦ absurd hm (Nat.not_lt_zero _)
  | succ n ih =>
    intro v q p m hm h hlow hD
    have ih : TurnDecides K m.length :=
      fun v q p m' hm' ↦ ih v q p m' (hm'.trans_le (Nat.lt_succ_iff.mp hm))
    by_cases hvac : IsVacant (v :: q :: m ++ [p]) p v q
    · rcases eq_or_ne m [] with rfl | hm
      · have hrot : [p, v, q] ~r [v, q] ++ [p] := (List.isRotated_concat p [v, q]).symm
        exact (runsClockwise_triangle hD).of_isRotated hrot
      · exact ih.of_vacant hm h hlow hD hvac
    · exact ih.of_not_vacant h hlow hD hvac

/-- **Every proper loop runs one way or the other.** -/
theorem IsProper.runsClockwise_or_reverse (h : IsProper loop) :
    RunsClockwise loop ∨ RunsClockwise loop.reverse :=
  (turnDecides loop.length).runsClockwise_or_reverse h (by omega)

theorem RunsClockwise.not_reverse (h : doubledArea loop < 0) :
    ¬RunsClockwise loop.reverse := by
  intro hrev
  have := hrev.doubledArea_neg
  rw [doubledArea_reverse] at this
  linarith

theorem IsProper.runsClockwise (h : IsProper loop) (harea : doubledArea loop < 0) :
    RunsClockwise loop :=
  h.runsClockwise_or_reverse.resolve_right (RunsClockwise.not_reverse harea)

theorem RunsClockwise.turn_leftmost (h : RunsClockwise loop) (hP : IsProper loop)
    (hcorner : IsCorner loop a v b) (hlow : ∀ u ∈ loop, u = v ∨ Precedes v u) :
    doubleArea a v b < 0 := by
  obtain ⟨l, hrot⟩ := exists_isRotated_of_corner hP.nodup hP.three_le hcorner.1 hcorner.2
  have hrot : loop ~r v :: b :: l ++ [a] :=
    hrot.trans (List.isRotated_concat a (v :: b :: l)).symm
  have hP := hP.of_isRotated hrot
  have hlow : ∀ u ∈ b :: l ++ [a], Precedes v u := by
    intro u hu
    refine (hlow u (hrot.mem_iff.mpr (List.mem_cons_of_mem v hu))).resolve_left ?_
    rintro rfl
    exact (List.nodup_cons.mp hP.nodup).1 hu
  refine (turn_ne_zero hP hlow).lt_or_gt.resolve_right fun hD ↦ ?_
  refine RunsClockwise.not_reverse (h.of_isRotated hrot).doubledArea_neg ?_
  exact (turnDecides (l.length + 1)).runsClockwise_reverse (Nat.lt_succ_self _) hP hlow hD

end Polyline

end SolidModel
