import Mathlib
import SolidModel.Proofs.Loop.Sums
import SolidModel.Proofs.Plane.Hull

/-!
# Winding numbers

From a point `q` a ray runs to the left. Each edge of a loop that crosses the ray downwards
counts one and each that crosses it upwards minus one; a lower end counts as on the edge and an
upper end does not. The sum is the winding number of the loop around `q`.

`crossing_eq_add_of_apart` says how the count of one edge changes along a segment `x y` apart from
it: an end of the edge matters if the ray passes over it, and then it does so for the edge before
and the edge behind, so that around a loop these changes cancel. Hence the winding number is
constant along segments that avoid the loop.
-/

namespace SolidModel

open Point2
open VectorOps (lerp)

namespace Polyline

variable {K : Type} [Field K] [LinearOrder K] [FloorRing K]
variable {a b c q x y : Point2 K} {loop : List (Point2 K)}

/-- Does the edge from `a` to `b` pass upwards to the left of `q`? -/
def Rises (q a b : Point2 K) : Prop := a.y ≤ q.y ∧ q.y < b.y ∧ doubleArea a b q < 0

instance (q a b : Point2 K) : Decidable (Rises q a b) :=
  inferInstanceAs (Decidable (_ ∧ _ ∧ _))

/-- How the edge crosses the ray from `q` to the left: down is one, up is minus one. -/
def crossing (q : Point2 K) (e : Point2 K × Point2 K) : ℤ :=
  (if Rises q e.2 e.1 then 1 else 0) - if Rises q e.1 e.2 then 1 else 0

/-- How often the loop winds around `q`, counter-clockwise. -/
def winding (loop : List (Point2 K)) (q : Point2 K) : ℤ := edgeSum (crossing q) loop

theorem alternates_crossing (q : Point2 K) : Alternates (crossing q) := by
  intro a b
  rw [crossing, crossing]
  ring

theorem winding_of_isRotated {l m : List (Point2 K)} (h : l ~r m) (q : Point2 K) :
    winding l q = winding m q := edgeSum_of_isRotated h

theorem winding_reverse (l : List (Point2 K)) (q : Point2 K) :
    winding l.reverse q = -winding l q := edgeSum_reverse (alternates_crossing q) l

theorem winding_cut (a b : Point2 K) (l m : List (Point2 K)) (q : Point2 K) :
    winding (a :: l ++ b :: m) q = winding (a :: l ++ [b]) q + winding (b :: m ++ [a]) q :=
  edgeSum_cut (alternates_crossing q) a b l m

/-! ## Along a segment that avoids an edge -/

/-- Does the ray pass over `u` while its end goes up from `x` to `y`? -/
def Sweeps (x y u : Point2 K) : Prop := x.y < u.y ∧ u.y ≤ y.y ∧ 0 < doubleArea x y u

instance (x y u : Point2 K) : Decidable (Sweeps x y u) :=
  inferInstanceAs (Decidable (_ ∧ _ ∧ _))

/-- How the ray passes over `u` while its end goes from `x` to `y`. -/
def swept (x y u : Point2 K) : ℤ :=
  (if Sweeps x y u then 1 else 0) - if Sweeps y x u then 1 else 0

private theorem swept_swap (x y u : Point2 K) : swept y x u = -swept x y u := by
  rw [swept, swept]
  ring

variable [IsStrictOrderedRing K]

/-- Two segments without a common point: at every height that both reach the same one is to the
left. -/
private theorem exists_side (h : Apart a b x y) : ∃ left : Prop,
    (a.y ≤ x.y → x.y < b.y → (doubleArea a b x < 0 ↔ left)) ∧
    (a.y ≤ y.y → y.y < b.y → (doubleArea a b y < 0 ↔ left)) ∧
    (x.y < a.y → a.y ≤ y.y → (0 < doubleArea x y a ↔ left)) ∧
    (x.y < b.y → b.y ≤ y.y → (0 < doubleArea x y b ↔ left)) := by
  refine ⟨∃ p q, OnSegment a b p ∧ OnSegment x y q ∧ p.y = q.y ∧ p.x < q.x, ?_⟩
  have hleft : ∀ p q, OnSegment a b p → OnSegment x y q → p.y = q.y → (p.x < q.x ↔
      ∃ p q, OnSegment a b p ∧ OnSegment x y q ∧ p.y = q.y ∧ p.x < q.x) := by
    refine fun p q hp hq hy ↦ ⟨fun hx ↦ ⟨p, q, hp, hq, hy, hx⟩, ?_⟩
    rintro ⟨p', q', hp', hq', hy', hx'⟩
    by_contra hle
    obtain ⟨r, hr, hr'⟩ := exists_common hp' hp hq' hq hy' hy hx'.le (not_lt.mp hle)
    exact h r hr hr'
  have hedge : ∀ q, OnSegment x y q → a.y ≤ q.y → q.y < b.y → (doubleArea a b q < 0 ↔
      ∃ p q, OnSegment a b p ∧ OnSegment x y q ∧ p.y = q.y ∧ p.x < q.x) := by
    intro q hq ha hb
    obtain ⟨p, hp, hpy, hD, -⟩ := exists_onSegment_height (ha.trans_lt hb) ha hb.le
    rw [← hleft p q hp hq hpy, hD]
  have hpath : ∀ p, OnSegment a b p → x.y < p.y → p.y ≤ y.y → (0 < doubleArea x y p ↔
      ∃ p q, OnSegment a b p ∧ OnSegment x y q ∧ p.y = q.y ∧ p.x < q.x) := by
    intro p hp hx hy
    obtain ⟨q, hq, hqy, -, hD⟩ := exists_onSegment_height (hx.trans_le hy) hx.le hy
    rw [← hleft p q hp hq hqy.symm, hD]
  exact ⟨hedge x (onSegment_left x y), hedge y (onSegment_right x y),
    hpath a (onSegment_left a b), hpath b (onSegment_right a b)⟩

private theorem crossing_eq_add_of_apart (h : Apart a b x y) :
    crossing x (a, b) = crossing y (a, b) + (swept x y a - swept x y b) := by
  wlog hab : a.y ≤ b.y generalizing a b
  · have := this h.swap_left (le_of_not_ge hab)
    rw [alternates_crossing x a b, alternates_crossing y a b] at this
    linarith
  wlog hxy : x.y ≤ y.y generalizing x y
  · have := this h.swap_right (le_of_not_ge hxy)
    rw [swept_swap x y, swept_swap x y] at this
    linarith
  obtain ⟨left, hx, hy, ha, hb⟩ := exists_side h
  have hRx : Rises x a b ↔ a.y ≤ x.y ∧ x.y < b.y ∧ left :=
    and_congr_right fun h1 ↦ and_congr_right fun h2 ↦ hx h1 h2
  have hRy : Rises y a b ↔ a.y ≤ y.y ∧ y.y < b.y ∧ left :=
    and_congr_right fun h1 ↦ and_congr_right fun h2 ↦ hy h1 h2
  have hSa : Sweeps x y a ↔ x.y < a.y ∧ a.y ≤ y.y ∧ left :=
    and_congr_right fun h1 ↦ and_congr_right fun h2 ↦ ha h1 h2
  have hSb : Sweeps x y b ↔ x.y < b.y ∧ b.y ≤ y.y ∧ left :=
    and_congr_right fun h1 ↦ and_congr_right fun h2 ↦ hb h1 h2
  have hdown : ∀ q, ¬Rises q b a := fun q hq ↦ by linarith [hq.1, hq.2.1]
  have hback : ∀ u, ¬Sweeps y x u := fun u hu ↦ by linarith [hu.1, hu.2.1]
  classical
  simp only [crossing, swept, hdown, hback, hRx, hRy, hSa, hSb, if_false]
  by_cases hl : left
  · simp only [hl, and_true]
    split_ifs <;> grind
  · simp [hl]

/-- **The winding number is constant along a segment that avoids the loop.** -/
theorem winding_eq_of_apart (h : ∀ e ∈ cyclicPairs loop, Apart e.1 e.2 x y) :
    winding loop x = winding loop y := by
  have hsum : winding loop x
      = edgeSum (fun e ↦ crossing y e + (swept x y e.1 - swept x y e.2)) loop :=
    congrArg List.sum (List.map_congr_left fun e he ↦ crossing_eq_add_of_apart (h e he))
  rw [hsum, edgeSum, List.sum_map_add, ← edgeSum, ← edgeSum, edgeSum_sub, add_zero, winding]

theorem sum_links_crossing {a b : Point2 K} {l : List (Point2 K)}
    (h : ∀ e ∈ links (a :: l ++ [b]), Apart e.1 e.2 x y) :
    ((links (a :: l ++ [b])).map (crossing x)).sum
      = ((links (a :: l ++ [b])).map (crossing y)).sum + (swept x y a - swept x y b) := by
  rw [← sum_links_sub (swept x y), ← List.sum_map_add]
  exact congrArg List.sum (List.map_congr_left fun e he ↦ crossing_eq_add_of_apart (h e he))

/-! ## Around a triangle -/

omit [IsStrictOrderedRing K] in
private theorem balance (a b c q : Point2 K) :
    (a.y - q.y) * doubleArea b c q + (b.y - q.y) * doubleArea c a q
      + (c.y - q.y) * doubleArea a b q = 0 := by
  simp only [doubleArea_eq]
  ring

private theorem winding_triangle_of_above (ha : q.y < a.y) (hb : b.y ≤ q.y) (hc : c.y ≤ q.y) :
    winding [a, b, c] q
      = (if 0 < doubleArea a b q then 1 else 0) - if doubleArea c a q < 0 then 1 else 0 := by
  rw [winding, edgeSum_triple]
  simp only [crossing, Rises, ha, hb, hc, not_le.mpr ha, not_lt.mpr hb, not_lt.mpr hc,
    doubleArea_swap a b, neg_neg_iff_pos, true_and, false_and, and_false, if_false]
  ring

private theorem winding_triangle_of_below (ha : a.y ≤ q.y) (hb : q.y < b.y) (hc : q.y < c.y) :
    winding [a, b, c] q
      = (if 0 < doubleArea c a q then 1 else 0) - if doubleArea a b q < 0 then 1 else 0 := by
  rw [winding, edgeSum_triple]
  simp only [crossing, Rises, ha, hb, hc, not_le.mpr hb, not_le.mpr hc, not_lt.mpr ha,
    doubleArea_swap c a, neg_neg_iff_pos, true_and, false_and, and_false, if_false]
  ring

/-- Does the winding number of the triangle tell whether `q` is inside? The edges are left
open. -/
def TellsInside (a b c q : Point2 K) : Prop :=
  (doubleArea a b q < 0 → doubleArea b c q < 0 → doubleArea c a q < 0 →
    winding [a, b, c] q = -1) ∧
  (doubleArea a b c = 0 ∨ 0 < doubleArea a b q ∨ 0 < doubleArea b c q ∨ 0 < doubleArea c a q →
    winding [a, b, c] q = 0)

omit [IsStrictOrderedRing K] in
theorem TellsInside.rotate (h : TellsInside a b c q) : TellsInside c a b q := by
  have hrot : winding [c, a, b] q = winding [a, b, c] q :=
    winding_of_isRotated (List.isRotated_concat c [a, b]).symm q
  have hD : doubleArea c a b = doubleArea a b c := doubleArea_rotate c a b
  rw [TellsInside, hrot, hD]
  exact ⟨fun h1 h2 h3 ↦ h.1 h2 h3 h1, fun h0 ↦ h.2 (by tauto)⟩

/-- The edges at a lone corner, with the areas `β` and `γ`: if both have one sign then so has
the opposite area `α`, and either both cross the ray or none does. -/
private theorem sub_eq_of_alone {α β γ : K} (hsum : α + β + γ ≤ 0) (hpos : 0 < β → 0 ≤ γ → 0 ≤ α)
    (hneg : β ≤ 0 → γ < 0 → α ≤ 0) :
    (α < 0 → β < 0 → γ < 0 → ((if 0 < β then 1 else 0) - if γ < 0 then 1 else 0 : ℤ) = -1) ∧
    (α + β + γ = 0 ∨ 0 < α ∨ 0 < β ∨ 0 < γ →
      ((if 0 < β then 1 else 0) - if γ < 0 then 1 else 0 : ℤ) = 0) := by
  constructor
  · intro _ h2 h3
    rw [if_neg (by linarith), if_pos h3]
    rfl
  · intro h0
    rcases lt_or_ge 0 β with h1 | h1
    · rw [if_pos h1, if_pos]
      · rfl
      · by_contra h2
        linarith [hpos h1 (not_lt.mp h2)]
    · rw [if_neg (by linarith), if_neg]
      · rfl
      · intro h2
        have := hneg h1 h2
        rcases h0 with h0 | h0 | h0 | h0 <;> linarith

private theorem tellsInside_of_alone (hD : doubleArea a b c ≤ 0)
    (h : q.y < a.y ∧ b.y ≤ q.y ∧ c.y ≤ q.y ∨ a.y ≤ q.y ∧ q.y < b.y ∧ q.y < c.y) :
    TellsInside a b c q := by
  have hbal := balance a b c q
  have hsum := doubleArea_add_add a b c q
  rw [TellsInside, ← hsum]
  -- the balance gives the area opposite to the lone corner its sign
  rcases h with ⟨ha, hb, hc⟩ | ⟨ha, hb, hc⟩
  · rw [winding_triangle_of_above ha hb hc]
    have hA : 0 < a.y - q.y := sub_pos.mpr ha
    have hcount := @sub_eq_of_alone K _ _ _ _ (doubleArea b c q) (doubleArea a b q)
      (doubleArea c a q) (by linarith) ?_ ?_
    · exact ⟨fun h1 h2 h3 ↦ hcount.1 h2 h1 h3,
        fun h0 ↦ hcount.2 (h0.imp (fun h ↦ by linarith) (by tauto))⟩
    · intro h1 h2
      by_contra h3
      have := mul_neg_of_pos_of_neg hA (not_le.mp h3)
      have := mul_nonneg (sub_nonneg.mpr hb) h2
      have := mul_nonneg (sub_nonneg.mpr hc) h1.le
      linarith
    · intro h1 h2
      by_contra h3
      have := mul_pos hA (not_le.mp h3)
      have := mul_nonneg (sub_nonneg.mpr hb) (neg_nonneg.mpr h2.le)
      have := mul_nonneg (sub_nonneg.mpr hc) (neg_nonneg.mpr h1)
      linarith
  · rw [winding_triangle_of_below ha hb hc]
    have hB : 0 < b.y - q.y := sub_pos.mpr hb
    have hC : 0 < c.y - q.y := sub_pos.mpr hc
    have hcount := @sub_eq_of_alone K _ _ _ _ (doubleArea b c q) (doubleArea c a q)
      (doubleArea a b q) (by linarith) ?_ ?_
    · exact ⟨fun h1 h2 h3 ↦ hcount.1 h2 h3 h1,
        fun h0 ↦ hcount.2 (h0.imp (fun h ↦ by linarith) (by tauto))⟩
    · intro h1 h2
      by_contra h3
      have := mul_pos hB h1
      have := mul_nonneg hC.le h2
      have := mul_nonneg (sub_nonneg.mpr ha) (neg_nonneg.mpr (not_le.mp h3).le)
      linarith
    · intro h1 h2
      by_contra h3
      have := mul_nonneg hB.le (neg_nonneg.mpr h1)
      have := mul_pos hC (neg_pos.mpr h2)
      have := mul_nonneg (sub_nonneg.mpr ha) (not_le.mp h3).le
      linarith

private theorem tellsInside_of_level (h : a.y ≤ q.y ∧ b.y ≤ q.y ∧ c.y ≤ q.y ∨
    q.y < a.y ∧ q.y < b.y ∧ q.y < c.y) : TellsInside a b c q := by
  have hbal := balance a b c q
  have hzero : winding [a, b, c] q = 0 := by
    rw [winding, edgeSum_triple]
    rcases h with ⟨ha, hb, hc⟩ | ⟨ha, hb, hc⟩
    · simp [crossing, Rises, not_lt.mpr ha, not_lt.mpr hb, not_lt.mpr hc]
    · simp [crossing, Rises, not_le.mpr ha, not_le.mpr hb, not_le.mpr hc]
  refine ⟨fun hab hbc hca ↦ ?_, fun _ ↦ hzero⟩
  exfalso
  rcases h with ⟨ha, hb, hc⟩ | ⟨ha, hb, hc⟩
  · -- all corners would be at the height of `q`
    have h1 := mul_nonneg_of_nonpos_of_nonpos (sub_nonpos.mpr ha) hbc.le
    have h2 := mul_nonneg_of_nonpos_of_nonpos (sub_nonpos.mpr hb) hca.le
    have h3 := mul_nonneg_of_nonpos_of_nonpos (sub_nonpos.mpr hc) hab.le
    have ha0 := (mul_eq_zero.mp (show (a.y - q.y) * doubleArea b c q = 0 by linarith)).resolve_right
      hbc.ne
    have hb0 := (mul_eq_zero.mp (show (b.y - q.y) * doubleArea c a q = 0 by linarith)).resolve_right
      hca.ne
    rw [doubleArea_eq, show q.y = a.y by linarith, show b.y = a.y by linarith] at hab
    linarith
  · have h1 := mul_neg_of_pos_of_neg (sub_pos.mpr ha) hbc
    have h2 := mul_neg_of_pos_of_neg (sub_pos.mpr hb) hca
    have h3 := mul_neg_of_pos_of_neg (sub_pos.mpr hc) hab
    linarith

theorem tellsInside (hD : doubleArea a b c ≤ 0) : TellsInside a b c q := by
  have hDc : doubleArea c a b ≤ 0 := by rwa [doubleArea_rotate]
  have hDb : doubleArea b c a ≤ 0 := by rwa [← doubleArea_rotate]
  rcases lt_or_ge q.y a.y with ha | ha <;> rcases lt_or_ge q.y b.y with hb | hb <;>
    rcases lt_or_ge q.y c.y with hc | hc
  · exact tellsInside_of_level (.inr ⟨ha, hb, hc⟩)
  · exact (tellsInside_of_alone hDc (.inr ⟨hc, ha, hb⟩)).rotate.rotate
  · exact (tellsInside_of_alone hDb (.inr ⟨hb, hc, ha⟩)).rotate
  · exact tellsInside_of_alone hD (.inl ⟨ha, hb, hc⟩)
  · exact tellsInside_of_alone hD (.inr ⟨ha, hb, hc⟩)
  · exact (tellsInside_of_alone hDb (.inl ⟨hb, hc, ha⟩)).rotate
  · exact (tellsInside_of_alone hDc (.inl ⟨hc, ha, hb⟩)).rotate.rotate
  · exact tellsInside_of_level (.inl ⟨ha, hb, hc⟩)

/-- Is `q` on none of the edges of the loop? -/
def Avoids (loop : List (Point2 K)) (q : Point2 K) : Prop :=
  ∀ e ∈ cyclicPairs loop, ¬OnSegment e.1 e.2 q

/-- **The winding number of a clockwise triangle** is minus one inside. -/
theorem winding_triangle_of_inHull (hD : doubleArea a b c ≤ 0) (hq : Avoids [a, b, c] q)
    (h : InHull a b c q) : winding [a, b, c] q = -1 := by
  obtain ⟨hab, hbc, hca⟩ : ¬OnSegment a b q ∧ ¬OnSegment b c q ∧ ¬OnSegment c a q :=
    ⟨hq (a, b) (by simp [cyclicPairs_cons]), hq (b, c) (by simp [cyclicPairs_cons]),
      hq (c, a) (by simp [cyclicPairs_cons])⟩
  rcases hD.eq_or_lt with hD0 | hD0
  · have := h.onSegment_of_eq_zero hD0
    tauto
  have hDb : doubleArea b c a < 0 := by rwa [← doubleArea_rotate]
  have hDc : doubleArea c a b < 0 := by rwa [doubleArea_rotate]
  obtain ⟨h1, h2, h3⟩ := (inHull_iff hD0).mp h
  exact (tellsInside hD).1 (h1.lt_of_ne fun h0 ↦ hab (h.onSegment_of_line hD0 h0))
    (h2.lt_of_ne fun h0 ↦ hbc (h.rotate.onSegment_of_line hDb h0))
    (h3.lt_of_ne fun h0 ↦ hca (h.rotate.rotate.onSegment_of_line hDc h0))

theorem winding_triangle_of_not_inHull (hD : doubleArea a b c ≤ 0) (h : ¬InHull a b c q) :
    winding [a, b, c] q = 0 := by
  rcases hD.eq_or_lt with hD0 | hD0
  · exact (tellsInside hD).2 (.inl hD0)
  · rw [inHull_iff hD0, not_and_or, not_and_or, not_le, not_le, not_le] at h
    exact (tellsInside hD).2 (.inr h)

end Polyline

end SolidModel
