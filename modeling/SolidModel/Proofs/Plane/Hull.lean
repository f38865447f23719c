import Mathlib
import SolidModel.Proofs.Plane.Segment

/-!
# Points in a triangle

The closed triangle over three points is the set of their averages. It is read off the signs of
three doubled areas when it runs clockwise, and it is no more than its three edges when it has
no area. `exists_exit` is the one fact about segments and triangles together: whoever leaves the
triangle without passing the edge opposite to the tip passes one of the edges at the tip.
-/

namespace SolidModel

namespace Point2

open VectorOps (lerp)

variable {K : Type} [Field K] [LinearOrder K] [FloorRing K]
variable {a b c d p q : Point2 K}

/-- Is `q` an average of the three points? -/
def InHull (a b c q : Point2 K) : Prop :=
  ∃ u v w : K, 0 ≤ u ∧ 0 ≤ v ∧ 0 ≤ w ∧ u + v + w = 1 ∧
    q.x = u * a.x + v * b.x + w * c.x ∧ q.y = u * a.y + v * b.y + w * c.y

theorem inHull_left (a b c : Point2 K) : InHull a b c a :=
  ⟨1, 0, 0, zero_le_one, le_rfl, le_rfl, by ring, by ring, by ring⟩

theorem inHull_middle (a b c : Point2 K) : InHull a b c b :=
  ⟨0, 1, 0, le_rfl, zero_le_one, le_rfl, by ring, by ring, by ring⟩

theorem inHull_right (a b c : Point2 K) : InHull a b c c :=
  ⟨0, 0, 1, le_rfl, le_rfl, zero_le_one, by ring, by ring, by ring⟩

variable [IsStrictOrderedRing K]

theorem InHull.rotate (h : InHull a b c q) : InHull b c a q := by
  obtain ⟨u, v, w, hu, hv, hw, hsum, hx, hy⟩ := h
  exact ⟨v, w, u, hv, hw, hu, by linarith, by linarith, by linarith⟩

/-- Triangles are convex. -/
theorem InHull.of_onSegment (hp : InHull a b c p) (hq : InHull a b c q) {r : Point2 K}
    (hr : OnSegment p q r) : InHull a b c r := by
  obtain ⟨u, v, w, hu, hv, hw, hsum, hx, hy⟩ := hp
  obtain ⟨u', v', w', hu', hv', hw', hsum', hx', hy'⟩ := hq
  obtain ⟨s, hs0, hs1, rfl⟩ := hr
  have hs1' := sub_nonneg.mpr hs1
  refine ⟨(1 - s) * u + s * u', (1 - s) * v + s * v', (1 - s) * w + s * w', ?_, ?_, ?_, ?_, ?_, ?_⟩
  · exact add_nonneg (mul_nonneg hs1' hu) (mul_nonneg hs0 hu')
  · exact add_nonneg (mul_nonneg hs1' hv) (mul_nonneg hs0 hv')
  · exact add_nonneg (mul_nonneg hs1' hw) (mul_nonneg hs0 hw')
  · linear_combination (1 - s) * hsum + s * hsum'
  · rw [lerp_x]
    linear_combination (1 - s) * hx + s * hx'
  · rw [lerp_y]
    linear_combination (1 - s) * hy + s * hy'

theorem InHull.doubleArea_nonpos (h : InHull a b c q) (ha : doubleArea p d a ≤ 0)
    (hb : doubleArea p d b ≤ 0) (hc : doubleArea p d c ≤ 0) : doubleArea p d q ≤ 0 := by
  obtain ⟨u, v, w, hu, hv, hw, hsum, hx, hy⟩ := h
  have hq : doubleArea p d q
      = u * doubleArea p d a + v * doubleArea p d b + w * doubleArea p d c := by
    simp only [doubleArea_eq, hx, hy]
    linear_combination ((d.x - p.x) * p.y - p.x * (d.y - p.y)) * hsum
  have h1 := mul_nonpos_of_nonneg_of_nonpos hu ha
  have h2 := mul_nonpos_of_nonneg_of_nonpos hv hb
  have h3 := mul_nonpos_of_nonneg_of_nonpos hw hc
  linarith

/-! ## Clockwise triangles -/

omit [IsStrictOrderedRing K] in
theorem doubleArea_add_add (a b c q : Point2 K) :
    doubleArea a b q + doubleArea b c q + doubleArea c a q = doubleArea a b c := by
  simp only [doubleArea_eq]
  ring

/-- A point is in a clockwise triangle if it is left of no edge. -/
theorem inHull_iff (h : doubleArea a b c < 0) :
    InHull a b c q ↔ doubleArea a b q ≤ 0 ∧ doubleArea b c q ≤ 0 ∧ doubleArea c a q ≤ 0 := by
  constructor
  · intro hq
    have hb : doubleArea b c a < 0 := by rwa [← doubleArea_rotate]
    have hc : doubleArea c a b < 0 := by rwa [← doubleArea_rotate, ← doubleArea_rotate]
    exact ⟨hq.doubleArea_nonpos (doubleArea_self_outer a b).le (doubleArea_self_right a b).le h.le,
      hq.doubleArea_nonpos hb.le (doubleArea_self_outer b c).le (doubleArea_self_right b c).le,
      hq.doubleArea_nonpos (doubleArea_self_right c a).le hc.le (doubleArea_self_outer c a).le⟩
  · rintro ⟨hab, hbc, hca⟩
    have hsum := doubleArea_add_add a b c q
    refine ⟨doubleArea b c q / doubleArea a b c, doubleArea c a q / doubleArea a b c,
      doubleArea a b q / doubleArea a b c, div_nonneg_of_nonpos hbc h.le,
      div_nonneg_of_nonpos hca h.le, div_nonneg_of_nonpos hab h.le, ?_, ?_, ?_⟩
    · rw [← add_div, ← add_div, div_eq_one_iff_eq h.ne]
      linarith
    · rw [div_mul_eq_mul_div, div_mul_eq_mul_div, div_mul_eq_mul_div, ← add_div, ← add_div,
        eq_div_iff h.ne]
      simp only [doubleArea_eq]
      ring
    · rw [div_mul_eq_mul_div, div_mul_eq_mul_div, div_mul_eq_mul_div, ← add_div, ← add_div,
        eq_div_iff h.ne]
      simp only [doubleArea_eq]
      ring

theorem InHull.onSegment_of_line (h : doubleArea a b c < 0) (hq : InHull a b c q)
    (hab : doubleArea a b q = 0) : OnSegment a b q := by
  obtain ⟨u, v, w, hu, hv, hw, hsum, hx, hy⟩ := hq
  have hw0 : w * doubleArea a b c = 0 := by
    rw [← hab]
    simp only [doubleArea_eq, hx, hy]
    linear_combination (-(b.x - a.x) * a.y + a.x * (b.y - a.y)) * hsum
  obtain rfl : w = 0 := (mul_eq_zero.mp hw0).resolve_right h.ne
  refine ⟨v, hv, by linarith, ext_iff'.mpr ⟨?_, ?_⟩⟩
  · rw [lerp_x, hx]
    linear_combination a.x * hsum
  · rw [lerp_y, hy]
    linear_combination a.y * hsum

private theorem exists_doubleArea_eq_zero (hp : doubleArea a b p < 0) (hq : 0 < doubleArea a b q) :
    ∃ r, OnSegment p q r ∧ doubleArea a b r = 0 := by
  have hpos : 0 < doubleArea a b q - doubleArea a b p := by linarith
  refine ⟨lerp p q (-doubleArea a b p / (doubleArea a b q - doubleArea a b p)),
    ⟨_, div_nonneg (by linarith) hpos.le, (div_le_one hpos).mpr (by linarith), rfl⟩, ?_⟩
  rw [doubleArea_lerp]
  field_simp
  ring

/-- **Leaving a triangle.** A segment from within the angle at the tip `b` to a point outside,
on the same side of the edge opposite to the tip, passes one of the edges at the tip. -/
theorem exists_exit (h : doubleArea a b c < 0) (hp : InHull a b c p)
    (hab : doubleArea a b p < 0) (hbc : doubleArea b c p < 0)
    (hq : ¬InHull a b c q) (hca : doubleArea c a q ≤ 0) :
    ∃ r, OnSegment p q r ∧ (OnSegment a b r ∨ OnSegment b c r) := by
  have hcap := ((inHull_iff h).mp hp).2.2
  have hside : ∀ r, OnSegment p q r → doubleArea c a r ≤ 0 :=
    fun r hr ↦ hr.doubleArea_nonpos hcap hca
  -- a point in line with one of the edges, and not left of the other one
  have hon : ∀ r, OnSegment p q r → doubleArea a b r ≤ 0 → doubleArea b c r ≤ 0 →
      doubleArea a b r = 0 ∨ doubleArea b c r = 0 → OnSegment a b r ∨ OnSegment b c r := by
    intro r hr h1 h2 h0
    have hin : InHull a b c r := (inHull_iff h).mpr ⟨h1, h2, hside r hr⟩
    rcases h0 with h0 | h0
    · exact .inl (hin.onSegment_of_line h h0)
    · exact .inr (hin.rotate.onSegment_of_line (by rwa [← doubleArea_rotate]) h0)
  by_cases hqab : doubleArea a b q ≤ 0
  · have hqbc : 0 < doubleArea b c q := by
      by_contra hle
      exact hq ((inHull_iff h).mpr ⟨hqab, not_lt.mp hle, hca⟩)
    obtain ⟨r, hr, hr0⟩ := exists_doubleArea_eq_zero hbc hqbc
    exact ⟨r, hr, hon r hr (hr.doubleArea_nonpos hab.le hqab) hr0.le (.inr hr0)⟩
  · obtain ⟨r, hr, hr0⟩ := exists_doubleArea_eq_zero hab (not_le.mp hqab)
    by_cases hrbc : doubleArea b c r ≤ 0
    · exact ⟨r, hr, hon r hr hr0.le hrbc (.inl hr0)⟩
    -- the other edge was passed before
    · obtain ⟨r', hr', hr0'⟩ := exists_doubleArea_eq_zero hbc (not_le.mp hrbc)
      have hr'q : OnSegment p q r' := (onSegment_left p q).trans hr hr'
      exact ⟨r', hr'q, hon r' hr'q (hr'.doubleArea_nonpos hab.le hr0.le) hr0'.le (.inr hr0')⟩

/-! ## Triangles without area -/

theorem exists_between (h : doubleArea a b c = 0) :
    OnSegment a b c ∨ OnSegment b c a ∨ OnSegment c a b := by
  rcases eq_or_ne a b with rfl | hab
  · exact .inr (.inl (onSegment_right c a).symm)
  rcases eq_or_ne b c with rfl | hbc
  · exact .inl (onSegment_right a b)
  rcases eq_or_ne c a with rfl | hca
  · exact .inl (onSegment_left c b)
  have hbca : doubleArea b c a = 0 := by rwa [← doubleArea_rotate]
  have hcab : doubleArea c a b = 0 := by rwa [← doubleArea_rotate, ← doubleArea_rotate]
  -- of the products of two edge vectors no two are positive, since the edges add up to none
  have hA := add_nonneg (mul_self_nonneg (b.x - a.x)) (mul_self_nonneg (b.y - a.y))
  have hB := add_nonneg (mul_self_nonneg (c.x - b.x)) (mul_self_nonneg (c.y - b.y))
  have hC := add_nonneg (mul_self_nonneg (a.x - c.x)) (mul_self_nonneg (a.y - c.y))
  by_cases h1 : (b.x - a.x) * (c.x - b.x) + (b.y - a.y) * (c.y - b.y) ≤ 0
  · by_cases h2 : (c.x - b.x) * (a.x - c.x) + (c.y - b.y) * (a.y - c.y) ≤ 0
    · exact .inr (.inl (onSegment_of_dot hbca hbc (by linarith) (by linarith)))
    · exact .inl (onSegment_of_dot h hab (by linarith) (by linarith))
  · exact .inr (.inr (onSegment_of_dot hcab hca (by linarith) (by linarith)))

theorem InHull.onSegment_of_eq_zero (hq : InHull a b c q) (h : doubleArea a b c = 0) :
    OnSegment a b q ∨ OnSegment b c q ∨ OnSegment c a q := by
  -- the edge that holds the third corner holds the whole triangle
  have hedge : ∀ {a b c : Point2 K}, OnSegment a b c → InHull a b c q → OnSegment a b q := by
    rintro a b c ⟨s, hs0, hs1, rfl⟩ ⟨u, v, w, hu, hv, hw, hsum, hx, hy⟩
    have h1 := mul_nonneg hw hs0
    have h2 := mul_nonneg hw (sub_nonneg.mpr hs1)
    refine ⟨v + w * s, by linarith, by linarith, ext_iff'.mpr ⟨?_, ?_⟩⟩
    · rw [lerp_x, hx, lerp_x]
      linear_combination a.x * hsum
    · rw [lerp_y, hy, lerp_y]
      linear_combination a.y * hsum
  rcases exists_between h with h | h | h
  · exact .inl (hedge h hq)
  · exact .inr (.inl (hedge h hq.rotate))
  · exact .inr (.inr (hedge h hq.rotate.rotate))

theorem inHull_of_onSegment_iff (h : doubleArea a b c = 0) :
    InHull a b c q ↔ OnSegment a b q ∨ OnSegment b c q ∨ OnSegment c a q := by
  refine ⟨fun hq ↦ hq.onSegment_of_eq_zero h, ?_⟩
  rintro (hq | hq | hq)
  · exact (inHull_left a b c).of_onSegment (inHull_middle a b c) hq
  · exact (inHull_middle a b c).of_onSegment (inHull_right a b c) hq
  · exact (inHull_right a b c).of_onSegment (inHull_left a b c) hq

theorem InHull.reverse (h : InHull a b c q) : InHull c b a q := by
  obtain ⟨u, v, w, hu, hv, hw, hsum, hx, hy⟩ := h
  exact ⟨w, v, u, hw, hv, hu, by linarith, by linarith, by linarith⟩

instance (a b c q : Point2 K) : Decidable (InHull a b c q) :=
  if hneg : doubleArea a b c < 0 then decidable_of_iff _ (inHull_iff hneg).symm
  else if hpos : doubleArea c b a < 0 then
    decidable_of_iff _ ((inHull_iff hpos).symm.trans ⟨InHull.reverse, InHull.reverse⟩)
  else decidable_of_iff _ (inHull_of_onSegment_iff (by
    rw [doubleArea_swap, ← doubleArea_rotate] at hpos
    linarith)).symm

end Point2

end SolidModel
