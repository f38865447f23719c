import Mathlib
import SolidModel.Proofs.Plane.Winding

/-!
# Winding numbers next to a loop

Two places where the winding number of a loop can be read off although nothing is known of the
rest of the loop. Across an edge it changes by one, see `exists_sides`. And seen from its
leftmost vertex, a point that the vertex can see has a winding number that depends only on
where it is between the two edges there, see `winding_of_sight`.
-/

namespace SolidModel

open Point2
open VectorOps (lerp)

namespace Polyline

variable {K : Type} [Field K] [LinearOrder K] [IsStrictOrderedRing K] [FloorRing K]
variable {a b c d m p q v x y : Point2 K} {loop l : List (Point2 K)}

/-! ## From the leftmost vertex -/

private theorem crossing_eq_zero (ha : q.x ≤ a.x) (hb : q.x ≤ b.x) : crossing q (a, b) = 0 := by
  have hnot : ∀ a b : Point2 K, q.x ≤ a.x → q.x ≤ b.x → ¬Rises q a b := by
    rintro a b ha hb ⟨h1, h2, hD⟩
    obtain ⟨p, ⟨s, hs0, hs1, rfl⟩, -, hpx, -⟩ :=
      exists_onSegment_height (h1.trans_lt h2) h1 h2.le
    have hlt := hpx.mp hD
    rw [lerp_x] at hlt
    have h1 := mul_nonneg (sub_nonneg.mpr hs1) (sub_nonneg.mpr ha)
    have h2 := mul_nonneg hs0 (sub_nonneg.mpr hb)
    linarith
  rw [crossing, if_neg (hnot b a hb ha), if_neg (hnot a b ha hb)]
  rfl

/-- No loop winds around a point further left than all of it. -/
theorem winding_eq_zero_of_leftmost (h : ∀ u ∈ loop, q.x ≤ u.x) : winding loop q = 0 := by
  have hzero : ∀ n ∈ (cyclicPairs loop).map (crossing q), n = 0 := by
    intro n hn
    obtain ⟨e, he, rfl⟩ := List.mem_map.mp hn
    exact crossing_eq_zero (h _ (fst_mem_of_mem_cyclicPairs he))
      (h _ (snd_mem_of_mem_cyclicPairs he))
  exact List.sum_eq_zero hzero

/-- Is `p` further left than `q`, or as far left and lower? -/
def Precedes (p q : Point2 K) : Prop := p.x < q.x ∨ p.x = q.x ∧ p.y < q.y

omit [IsStrictOrderedRing K] in
theorem Precedes.le (h : Precedes p q) : p.x ≤ q.x := h.elim le_of_lt fun h ↦ h.1.le

/-- Seen from the leftmost vertex `v`, the edge to a neighbour `u` and what the ray passes over
at `u` count together only whether `u` is to the left of the view. -/
private theorem swept_add_crossing (hx : Precedes v x) : ∃ k : ℤ, ∀ u, Precedes v u →
    doubleArea v x u ≠ 0 →
    swept x v u + crossing x (v, u) = k - if 0 < doubleArea v x u then 1 else 0 := by
  have hxx := hx.le
  -- where the ray cannot pass, the side of `u` is known
  have hside : ∀ u, Precedes v u → doubleArea v x u ≠ 0 →
      (v.y ≤ x.y → u.y ≤ v.y → doubleArea v x u < 0) ∧
      (x.y ≤ v.y → v.y ≤ u.y → 0 < doubleArea v x u) := by
    intro u hu hne
    have hux := hu.le
    rw [doubleArea_eq] at hne ⊢
    constructor
    · intro h1 h2
      refine lt_of_le_of_ne ?_ hne
      have := mul_nonneg (sub_nonneg.mpr hxx) (sub_nonneg.mpr h2)
      have := mul_nonneg (sub_nonneg.mpr hux) (sub_nonneg.mpr h1)
      linarith
    · intro h1 h2
      refine lt_of_le_of_ne ?_ hne.symm
      have := mul_nonneg (sub_nonneg.mpr hxx) (sub_nonneg.mpr h2)
      have := mul_nonneg (sub_nonneg.mpr hux) (sub_nonneg.mpr h1)
      linarith
  have hback : ∀ u, doubleArea x v u = -doubleArea v x u := fun u ↦ doubleArea_swap v x u
  have hturn : ∀ u, doubleArea u v x = doubleArea v x u := fun u ↦ doubleArea_rotate u v x
  have hflip : ∀ u, doubleArea v u x = -doubleArea v x u := by
    intro u
    rw [← hturn, doubleArea_swap]
  rcases le_or_gt v.y x.y with hy | hy
  · refine ⟨0, fun u hu hne ↦ ?_⟩
    obtain ⟨h1, h2⟩ := hside u hu hne
    simp only [swept, Sweeps, crossing, Rises, hback, hturn, hflip]
    split_ifs <;> grind
  · refine ⟨1, fun u hu hne ↦ ?_⟩
    obtain ⟨h1, h2⟩ := hside u hu hne
    simp only [swept, Sweeps, crossing, Rises, hback, hturn, hflip]
    split_ifs <;> grind

/-- **What the leftmost vertex sees.** The loop goes from `v` to `c`, on to `d` and back, and
the segment from `x` to `v` meets none of its other edges. -/
theorem winding_of_sight (hc : Precedes v c) (hd : Precedes v d) (hl : ∀ u ∈ l, v.x ≤ u.x)
    (hx : Precedes v x) (hap : ∀ e ∈ links (c :: l ++ [d]), Apart e.1 e.2 x v)
    (hc0 : doubleArea v x c ≠ 0) (hd0 : doubleArea v x d ≠ 0) :
    winding (v :: c :: l ++ [d]) x
      = (if 0 < doubleArea v x d then 1 else 0) - if 0 < doubleArea v x c then 1 else 0 := by
  obtain ⟨k, hk⟩ := swept_add_crossing hx
  have hzero : ((links (c :: l ++ [d])).map (crossing v)).sum = 0 := by
    have hleft : ∀ u ∈ c :: l ++ [d], v.x ≤ u.x := by
      simp only [List.cons_append, List.mem_cons, List.mem_append, List.not_mem_nil, or_false]
      rintro u (rfl | hu | rfl)
      · exact hc.le
      · exact hl u hu
      · exact hd.le
    have h0 : ∀ n ∈ (links (c :: l ++ [d])).map (crossing v), n = 0 := by
      intro n hn
      obtain ⟨e, he, rfl⟩ := List.mem_map.mp hn
      exact crossing_eq_zero (hleft _ (fst_mem_of_mem_links he))
        (hleft _ (List.mem_cons_of_mem _ (snd_mem_of_mem_links he)))
    exact List.sum_eq_zero h0
  have hsum : winding (v :: c :: l ++ [d]) x
      = crossing x (v, c) + ((links (c :: l ++ [d])).map (crossing x)).sum + crossing x (d, v) := by
    rw [winding, edgeSum_concat]
    simp [add_assoc]
  have h1 := hk c hc hc0
  have h2 := hk d hd hd0
  rw [hsum, sum_links_crossing hap, hzero, alternates_crossing x v d]
  linarith

/-! ## Across an edge -/

theorem onSegment_split (hm : OnSegment p q m) (hx : OnSegment p q x) :
    OnSegment m p x ∨ OnSegment m q x := by
  obtain ⟨s, hs0, hs1, rfl⟩ := hm
  obtain ⟨t, ht0, ht1, rfl⟩ := hx
  -- a point nearer to one end than `m` divides the way from there to `m`
  have hnear : ∀ (p q : Point2 K) (s t : K), 0 ≤ t → t ≤ s →
      OnSegment (lerp p q s) p (lerp p q t) := by
    intro p q s t ht0 hts
    refine (onSegment_comm).mp ?_
    rcases (ht0.trans hts).eq_or_lt with rfl | hs
    · obtain rfl : t = 0 := le_antisymm hts ht0
      exact onSegment_right _ _
    · refine ⟨t / s, div_nonneg ht0 hs.le, (div_le_one hs).mpr hts, ?_⟩
      rw [lerp_lerp_right, mul_div_cancel₀ _ hs.ne']
  rcases le_total t s with hts | hts
  · exact .inl (hnear p q s t ht0 hts)
  · rw [lerp_swap q p, lerp_swap q p]
    exact .inr (hnear q p _ _ (by linarith) (by linarith))

private theorem onSegment_of_opposite (hx : x.x + y.x = 2 * m.x) (hy : x.y + y.y = 2 * m.y)
    {s t : K} (hs : 0 < s) (ht : 0 < t) : OnSegment (lerp m x s) (lerp m y t) m := by
  have hpos : 0 < s + t := add_pos hs ht
  have hyx : y.x - m.x = -(x.x - m.x) := by linarith
  have hyy : y.y - m.y = -(x.y - m.y) := by linarith
  refine ⟨s / (s + t), div_nonneg hs.le hpos.le, (div_le_one hpos).mpr (by linarith), ?_⟩
  rw [ext_iff']
  constructor
  · simp only [lerp_x, hyx]
    field_simp
    ring
  · simp only [lerp_y, hyy]
    field_simp
    ring

private theorem crossing_across_of_level {z : K} (h : a.y < z ∧ z < b.y ∨ b.y < z ∧ z < a.y)
    (hx : x.y = z) (hy : y.y = z) (hxD : 0 < doubleArea a b x) (hyD : doubleArea a b y < 0) :
    crossing x (a, b) + (swept x y b - swept x y a) = crossing y (a, b) + 1 := by
  have hswap := doubleArea_swap a b
  simp only [crossing, swept, Rises, Sweeps, hx, hy, hswap]
  rcases h with ⟨h1, h2⟩ | ⟨h1, h2⟩
  · simp [h1.le, h2, h2.not_ge, hyD, hxD.not_gt, not_lt.mpr, le_of_lt]
  · simp [h1.le, h2, h1.not_gt, h2.not_ge, hyD.not_gt, hxD]

private theorem crossing_across_of_upright (hab : a.y = b.y) (hx : x.x = y.x)
    (h : a.x < x.x ∧ x.x < b.x ∧ y.y < a.y ∧ a.y < x.y ∨
      b.x < x.x ∧ x.x < a.x ∧ x.y < a.y ∧ a.y < y.y) :
    crossing x (a, b) + (swept x y b - swept x y a) = crossing y (a, b) + 1 := by
  have hD : ∀ u, doubleArea x y u = (u.x - x.x) * (x.y - y.y) := by
    intro u
    rw [doubleArea_eq, ← hx]
    ring
  have hD' : ∀ u, doubleArea y x u = -((u.x - x.x) * (x.y - y.y)) := by
    intro u
    rw [doubleArea_swap, hD]
  have hlevel : ∀ q : Point2 K, ¬Rises q a b ∧ ¬Rises q b a := by
    refine fun q ↦ ⟨fun hq ↦ ?_, fun hq ↦ ?_⟩
    · linarith [hq.1, hq.2.1]
    · linarith [hq.1, hq.2.1]
  simp only [crossing, swept, Sweeps, hlevel, hD, hD', if_false]
  rcases h with ⟨h1, h2, h3, h4⟩ | ⟨h1, h2, h3, h4⟩
  · have hxy : 0 < x.y - y.y := by linarith
    have ha := mul_neg_of_neg_of_pos (sub_neg.mpr h1) hxy
    have hb := mul_pos (sub_pos.mpr h2) hxy
    simp [← hab, h3, h4.le, h4.not_gt, ha, hb.le]
  · have hxy : x.y - y.y < 0 := by linarith
    have ha := mul_neg_of_pos_of_neg (sub_pos.mpr h2) hxy
    have hb := mul_pos_of_neg_of_neg (sub_neg.mpr h1) hxy
    simp [← hab, h3, h4.le, h4.not_gt, ha.not_gt, hb]

private theorem lt_and_lt_of_eq_add {a b z r : K} (hr0 : 0 < r) (hr1 : r < 1)
    (hz : z = a + (b - a) * r) (hab : a ≠ b) : a < z ∧ z < b ∨ b < z ∧ z < a := by
  subst hz
  refine hab.lt_or_gt.imp (fun hab ↦ ?_) fun hab ↦ ?_
  · have h1 := mul_pos (sub_pos.mpr hab) hr0
    have h2 := mul_pos (sub_pos.mpr hab) (sub_pos.mpr hr1)
    exact ⟨by linarith, by linarith⟩
  · have h1 := mul_pos (sub_pos.mpr hab) hr0
    have h2 := mul_pos (sub_pos.mpr hab) (sub_pos.mpr hr1)
    exact ⟨by linarith, by linarith⟩

/-- From `m` the points `x` and `y` lie in opposite directions, to the left and to the right of the
edge, and between any two points in these directions the count changes by one. -/
structure LeadsAcross (a b m x y : Point2 K) : Prop where
  left : 0 < doubleArea a b x
  right : doubleArea a b y < 0
  add_x : x.x + y.x = 2 * m.x
  add_y : x.y + y.y = 2 * m.y
  crossing_across : ∀ s t : K, 0 < s → 0 < t → 0 < doubleArea a b (lerp m x s) →
    doubleArea a b (lerp m y t) < 0 →
    crossing (lerp m x s) (a, b) + (swept (lerp m x s) (lerp m y t) b
      - swept (lerp m x s) (lerp m y t) a) = crossing (lerp m y t) (a, b) + 1

private theorem leadsAcross_of_ne (hm : OnSegment a b m) (hma : m ≠ a) (hmb : m ≠ b)
    (hab : a.y ≠ b.y) : LeadsAcross a b m ⟨m.x - (b.y - a.y), m.y⟩ ⟨m.x + (b.y - a.y), m.y⟩ := by
  have hm0 := hm.doubleArea_eq_zero
  rw [doubleArea_eq] at hm0
  obtain ⟨r, hr0, hr1, hmr⟩ := hm.exists_inner hma hmb
  rw [ext_iff', lerp_x, lerp_y] at hmr
  have hpos := mul_self_pos.mpr (sub_ne_zero.mpr hab.symm)
  refine ⟨?_, ?_, ?_, ?_, ?_⟩
  · rw [doubleArea_eq]
    linarith
  · rw [doubleArea_eq]
    linarith
  · simp only
    ring
  · simp only
    ring
  · intro s t _ _ hxD hyD
    have hbetween := lt_and_lt_of_eq_add hr0 hr1 hmr.2 hab
    exact crossing_across_of_level hbetween (by simp) (by simp) hxD hyD

private theorem leadsAcross_of_eq (hm : OnSegment a b m) (hma : m ≠ a) (hmb : m ≠ b)
    (hab : a.y = b.y) : LeadsAcross a b m ⟨m.x, m.y + (b.x - a.x)⟩ ⟨m.x, m.y - (b.x - a.x)⟩ := by
  have hm0 := hm.doubleArea_eq_zero
  rw [doubleArea_eq] at hm0
  obtain ⟨r, hr0, hr1, hmr⟩ := hm.exists_inner hma hmb
  rw [ext_iff', lerp_x, lerp_y] at hmr
  have hmy : m.y = a.y := by
    rw [hmr.2, hab]
    ring
  have hne : a.x ≠ b.x := by
    intro hx
    refine hma (ext_iff'.mpr ⟨?_, hmy⟩)
    rw [hmr.1, hx]
    ring
  have hpos := mul_self_pos.mpr (sub_ne_zero.mpr hne.symm)
  refine ⟨?_, ?_, ?_, ?_, ?_⟩
  · rw [doubleArea_eq]
    linarith
  · rw [doubleArea_eq]
    linarith
  · simp only
    ring
  · simp only
    ring
  · intro s t hs ht _ _
    refine crossing_across_of_upright hab (by simp) ?_
    simp only [lerp_x, lerp_y, sub_self, zero_mul, add_zero, add_sub_cancel_left, hmy]
    refine (lt_and_lt_of_eq_add hr0 hr1 hmr.1 hne).imp (fun h ↦ ?_) fun h ↦ ?_
    · have h1 := mul_pos (sub_pos.mpr (h.1.trans h.2)) hs
      have h2 := mul_pos (sub_pos.mpr (h.1.trans h.2)) ht
      exact ⟨h.1, h.2, by linarith, by linarith⟩
    · have h1 := mul_pos (sub_pos.mpr (h.1.trans h.2)) hs
      have h2 := mul_pos (sub_pos.mpr (h.1.trans h.2)) ht
      exact ⟨h.1, h.2, by linarith, by linarith⟩

private theorem exists_leadsAcross (hm : OnSegment a b m) (hma : m ≠ a) (hmb : m ≠ b) :
    ∃ x y, LeadsAcross a b m x y := by
  by_cases hab : a.y = b.y
  · exact ⟨_, _, leadsAcross_of_eq hm hma hmb hab⟩
  · exact ⟨_, _, leadsAcross_of_ne hm hma hmb hab⟩

/-- **The two sides of an edge.** Next to an inner point `m` of the edge from `a` to `b` there
are a point to the left and a point to the right of it, and the loop winds once more around the
left one. They are so close to `m` that the way there meets none of the given segments, among
them the other edges of the loop. -/
theorem exists_sides (segments : List (Point2 K × Point2 K)) (hm : OnSegment a b m) (hma : m ≠ a)
    (hmb : m ≠ b) (hedges : ∀ e ∈ links (b :: l ++ [a]), e ∈ segments)
    (hoff : ∀ e ∈ segments, ¬OnSegment e.1 e.2 m) :
    ∃ x y, 0 < doubleArea a b x ∧ doubleArea a b y < 0 ∧
      (∀ e ∈ segments, Apart e.1 e.2 m x ∧ Apart e.1 e.2 m y) ∧
      (Avoids (a :: b :: l) x ∧ Avoids (a :: b :: l) y) ∧
      winding (a :: b :: l) x = winding (a :: b :: l) y + 1 := by
  have hm0 := hm.doubleArea_eq_zero
  obtain ⟨x₀, y₀, hx₀, hy₀, hmx, hmy, hcount⟩ := exists_leadsAcross hm hma hmb
  obtain ⟨s, hs0, hs1, hx⟩ := exists_apart_of_off hoff x₀
  obtain ⟨t, ht0, ht1, hy⟩ := exists_apart_of_off hoff y₀
  have hxD : 0 < doubleArea a b (lerp m x₀ s) := by
    rw [doubleArea_lerp, hm0, mul_zero, zero_add]
    exact mul_pos hs0 hx₀
  have hyD : doubleArea a b (lerp m y₀ t) < 0 := by
    rw [doubleArea_lerp, hm0, mul_zero, zero_add]
    exact mul_neg_of_pos_of_neg ht0 hy₀
  have havoids : ∀ z, doubleArea a b z ≠ 0 → (∀ e ∈ segments, Apart e.1 e.2 m z) →
      Avoids (a :: b :: l) z := by
    intro z hz hap e he hez
    rw [cyclicPairs_cons, List.cons_append, List.cons_append, links_cons_cons,
      List.mem_cons] at he
    rcases he with rfl | he
    · exact hz hez.doubleArea_eq_zero
    · exact hap e (hedges e he) z hez (onSegment_right m z)
  refine ⟨lerp m x₀ s, lerp m y₀ t, hxD, hyD, fun e he ↦ ⟨hx e he, hy e he⟩,
    ⟨havoids _ hxD.ne' hx, havoids _ hyD.ne hy⟩, ?_⟩
  -- the way from one to the other passes `m` and meets no other edge
  have hcross : ∀ e ∈ links (b :: l ++ [a]), Apart e.1 e.2 (lerp m x₀ s) (lerp m y₀ t) := by
    intro e he z hz hz'
    rcases onSegment_split (onSegment_of_opposite hmx hmy hs0 ht0) hz' with h | h
    · exact hx e (hedges e he) z hz h
    · exact hy e (hedges e he) z hz h
  have hsum : ∀ z, winding (a :: b :: l) z
      = crossing z (a, b) + ((links (b :: l ++ [a])).map (crossing z)).sum := by
    intro z
    rw [winding, edgeSum_cons]
    simp
  rw [hsum, hsum, sum_links_crossing hcross]
  linarith [hcount s t hs0 ht0 hxD hyD]

end Polyline

end SolidModel
