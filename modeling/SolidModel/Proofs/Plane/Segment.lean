import Mathlib
import SolidModel.Point.Direction
import SolidModel.Proofs.Plane.Exact

/-!
# Segments of the plane

A segment is closed and may be a single point. What later modules need of segments comes down to
two facts. A point off a segment is separated from it by an affine function, so it can move a
little in any direction and stay off, see `exists_apart_of_off`. And two segments of which one is
left of the other at one height and right of it at another have a point in common, see
`exists_common`.
-/

namespace SolidModel

namespace Point2

open VectorOps (lerp)

variable {K : Type} [Field K] [LinearOrder K] [FloorRing K]
variable {a b c d p q : Point2 K}

/-! ## Points in between -/

@[simp] theorem lerp_x (a b : Point2 K) (s : K) : (lerp a b s).x = a.x + (b.x - a.x) * s := rfl

@[simp] theorem lerp_y (a b : Point2 K) (s : K) : (lerp a b s).y = a.y + (b.y - a.y) * s := rfl

@[simp] theorem lerp_zero (a b : Point2 K) : lerp a b 0 = a := by
  simp [ext_iff']

@[simp] theorem lerp_one (a b : Point2 K) : lerp a b 1 = b := by
  simp [ext_iff']

@[simp] theorem lerp_self (a : Point2 K) (s : K) : lerp a a s = a := by
  simp [ext_iff']

theorem lerp_swap (a b : Point2 K) (s : K) : lerp b a s = lerp a b (1 - s) := by
  rw [ext_iff']
  constructor
  · simp only [lerp_x]
    ring
  · simp only [lerp_y]
    ring

theorem lerp_lerp_right (a b : Point2 K) (s t : K) : lerp a (lerp a b s) t = lerp a b (s * t) := by
  rw [ext_iff']
  constructor
  · simp only [lerp_x]
    ring
  · simp only [lerp_y]
    ring

theorem doubleArea_lerp (p q a b : Point2 K) (s : K) :
    doubleArea p q (lerp a b s) = (1 - s) * doubleArea p q a + s * doubleArea p q b := by
  simp only [doubleArea_eq, lerp_x, lerp_y]
  ring

/-- Is `q` one of the points from `a` to `b`, both included? -/
def OnSegment (a b q : Point2 K) : Prop := ∃ s, 0 ≤ s ∧ s ≤ 1 ∧ q = lerp a b s

theorem onSegment_left (a b : Point2 K) : OnSegment a b a :=
  ⟨0, le_rfl, zero_le_one, (lerp_zero a b).symm⟩

theorem onSegment_right (a b : Point2 K) : OnSegment a b b :=
  ⟨1, zero_le_one, le_rfl, (lerp_one a b).symm⟩

private theorem onSegment_self_iff : OnSegment a a q ↔ q = a := by
  constructor
  · rintro ⟨s, -, -, rfl⟩
    exact lerp_self a s
  · rintro rfl
    exact onSegment_left q q

theorem OnSegment.exists_inner (h : OnSegment a b q) (ha : q ≠ a) (hb : q ≠ b) :
    ∃ s, 0 < s ∧ s < 1 ∧ q = lerp a b s := by
  obtain ⟨s, h0, h1, hq⟩ := h
  refine ⟨s, h0.lt_of_ne ?_, h1.lt_of_ne ?_, hq⟩
  · rintro rfl
    exact ha (by rw [hq, lerp_zero])
  · rintro rfl
    exact hb (by rw [hq, lerp_one])

theorem OnSegment.doubleArea_mem (h : OnSegment a b q) (c d : Point2 K) :
    ∃ s, 0 ≤ s ∧ s ≤ 1 ∧
      doubleArea c d q = (1 - s) * doubleArea c d a + s * doubleArea c d b := by
  obtain ⟨s, h0, h1, rfl⟩ := h
  exact ⟨s, h0, h1, doubleArea_lerp c d a b s⟩

theorem OnSegment.doubleArea_eq_zero (h : OnSegment a b q) : doubleArea a b q = 0 := by
  obtain ⟨s, -, -, rfl⟩ := h
  rw [doubleArea_lerp, doubleArea_self_outer, doubleArea_self_right]
  ring

variable [IsStrictOrderedRing K]

theorem OnSegment.symm (h : OnSegment a b q) : OnSegment b a q := by
  obtain ⟨s, h0, h1, rfl⟩ := h
  exact ⟨1 - s, by linarith, by linarith, lerp_swap b a s⟩

theorem onSegment_comm : OnSegment a b q ↔ OnSegment b a q :=
  ⟨OnSegment.symm, OnSegment.symm⟩

theorem OnSegment.trans (hp : OnSegment a b p) (hq : OnSegment a b q) (hc : OnSegment p q c) :
    OnSegment a b c := by
  obtain ⟨s, hs0, hs1, rfl⟩ := hp
  obtain ⟨t, ht0, ht1, rfl⟩ := hq
  obtain ⟨u, hu0, hu1, rfl⟩ := hc
  refine ⟨s + (t - s) * u, ?_, ?_, ?_⟩
  · have h1 : 0 ≤ s * (1 - u) := mul_nonneg hs0 (by linarith)
    have h2 : 0 ≤ t * u := mul_nonneg ht0 hu0
    linarith
  · have h1 : 0 ≤ (1 - s) * (1 - u) := mul_nonneg (by linarith) (by linarith)
    have h2 : 0 ≤ (1 - t) * u := mul_nonneg (by linarith) hu0
    linarith
  · rw [ext_iff']
    constructor
    · simp only [lerp_x]
      ring
    · simp only [lerp_y]
      ring

/-- Of a point on a segment and an end, each is between the other end and the other one only if
they are equal. -/
theorem OnSegment.eq_right (hq : OnSegment a b q) (hb : OnSegment q a b) :
    q = b := by
  obtain ⟨s, hs0, hs1, hs⟩ := hq
  obtain ⟨t, ht0, ht1, ht⟩ := hb
  rcases hs1.eq_or_lt with rfl | hs1
  · rw [hs, lerp_one]
  have hlt : (1 - t) * s < 1 := by
    have := mul_nonneg ht0 hs0
    linarith
  -- the way from `a` to `b` is a proper fraction of itself
  have hzero : ∀ {a b q : K}, q = a + (b - a) * s → b = q + (a - q) * t → b = a := by
    intro a b q h1 h2
    have hprod : (b - a) * (1 - (1 - t) * s) = 0 := by
      rw [h1] at h2
      linear_combination h2
    exact sub_eq_zero.mp ((mul_eq_zero.mp hprod).resolve_right (sub_ne_zero.mpr hlt.ne'))
  rw [ext_iff', lerp_x, lerp_y] at hs ht
  have hba : b = a := ext_iff'.mpr ⟨hzero hs.1 ht.1, hzero hs.2 ht.2⟩
  subst hba
  exact ext_iff'.mpr ⟨by rw [hs.1, sub_self, zero_mul, add_zero],
    by rw [hs.2, sub_self, zero_mul, add_zero]⟩

theorem OnSegment.doubleArea_nonpos (h : OnSegment a b q) (ha : doubleArea c d a ≤ 0)
    (hb : doubleArea c d b ≤ 0) : doubleArea c d q ≤ 0 := by
  obtain ⟨s, h0, h1, hs⟩ := h.doubleArea_mem c d
  rw [hs]
  have h1 := mul_nonpos_of_nonneg_of_nonpos (sub_nonneg.mpr h1) ha
  have h2 := mul_nonpos_of_nonneg_of_nonpos h0 hb
  linarith

theorem OnSegment.doubleArea_neg (h : OnSegment a b q) (ha : doubleArea c d a < 0)
    (hb : doubleArea c d b < 0) : doubleArea c d q < 0 := by
  obtain ⟨s, h0, h1, hs⟩ := h.doubleArea_mem c d
  rw [hs]
  have h1 := mul_nonpos_of_nonneg_of_nonpos (sub_nonneg.mpr h1) ha.le
  rcases h0.eq_or_lt with rfl | h0
  · linarith
  · have h2 := mul_neg_of_pos_of_neg h0 hb
    linarith

/-- The middle of a segment. -/
def middle (a b : Point2 K) : Point2 K := lerp a b (1 / 2)

theorem onSegment_middle (a b : Point2 K) : OnSegment a b (middle a b) :=
  ⟨1 / 2, by norm_num, by norm_num, rfl⟩

omit [IsStrictOrderedRing K] in
theorem doubleArea_middle (c d a b : Point2 K) :
    doubleArea c d (middle a b) = (doubleArea c d a + doubleArea c d b) / 2 := by
  rw [middle, doubleArea_lerp]
  ring

theorem middle_ne_left (h : a ≠ b) : middle a b ≠ a := by
  intro heq
  rw [middle, ext_iff', lerp_x, lerp_y] at heq
  exact h (ext_iff'.mpr ⟨by linarith [heq.1], by linarith [heq.2]⟩)

theorem middle_ne_right (h : a ≠ b) : middle a b ≠ b := by
  intro heq
  rw [middle, ext_iff', lerp_x, lerp_y] at heq
  exact h (ext_iff'.mpr ⟨by linarith [heq.1], by linarith [heq.2]⟩)

/-! ## Off a segment -/

theorem onSegment_of_dot (hab : doubleArea a b q = 0) (hne : a ≠ b)
    (h0 : 0 ≤ (q.x - a.x) * (b.x - a.x) + (q.y - a.y) * (b.y - a.y))
    (h1 : (q.x - b.x) * (b.x - a.x) + (q.y - b.y) * (b.y - a.y) ≤ 0) : OnSegment a b q := by
  rw [doubleArea_eq] at hab
  have hlen : 0 < (b.x - a.x) * (b.x - a.x) + (b.y - a.y) * (b.y - a.y) := by
    by_contra hlen
    have hx := mul_self_nonneg (b.x - a.x)
    have hy := mul_self_nonneg (b.y - a.y)
    have hx0 : b.x - a.x = 0 := mul_self_eq_zero.mp (by linarith)
    have hy0 : b.y - a.y = 0 := mul_self_eq_zero.mp (by linarith)
    exact hne (ext_iff'.mpr ⟨by linarith, by linarith⟩)
  refine ⟨((q.x - a.x) * (b.x - a.x) + (q.y - a.y) * (b.y - a.y))
    / ((b.x - a.x) * (b.x - a.x) + (b.y - a.y) * (b.y - a.y)), div_nonneg h0 hlen.le, ?_, ?_⟩
  · rw [div_le_one hlen]
    linarith
  · rw [ext_iff', lerp_x, lerp_y, mul_div_assoc', mul_div_assoc', ← sub_eq_iff_eq_add',
      ← sub_eq_iff_eq_add', eq_div_iff hlen.ne', eq_div_iff hlen.ne']
    constructor
    · linear_combination -(b.y - a.y) * hab
    · linear_combination (b.x - a.x) * hab

theorem onSegment_iff : OnSegment a b q ↔ doubleArea a b q = 0 ∧
    0 ≤ (q.x - a.x) * (b.x - a.x) + (q.y - a.y) * (b.y - a.y) ∧
    (q.x - b.x) * (b.x - a.x) + (q.y - b.y) * (b.y - a.y) ≤ 0 ∧ (a = b → q = a) := by
  constructor
  · rintro ⟨s, hs0, hs1, rfl⟩
    have hlen := add_nonneg (mul_self_nonneg (b.x - a.x)) (mul_self_nonneg (b.y - a.y))
    refine ⟨OnSegment.doubleArea_eq_zero ⟨s, hs0, hs1, rfl⟩, ?_, ?_, ?_⟩
    · have := mul_nonneg hs0 hlen
      rw [lerp_x, lerp_y]
      linarith
    · have := mul_nonneg (sub_nonneg.mpr hs1) hlen
      rw [lerp_x, lerp_y]
      linarith
    · rintro rfl
      exact lerp_self a s
  · rintro ⟨hD, h0, h1, heq⟩
    by_cases hab : a = b
    · rw [heq hab, hab]
      exact onSegment_left b b
    · exact onSegment_of_dot hD hab h0 h1

instance (a b q : Point2 K) : Decidable (OnSegment a b q) := decidable_of_iff _ onSegment_iff.symm

/-- **Separation.** Off a segment some affine function is larger than anywhere on it. -/
private theorem exists_separating (h : ¬OnSegment a b q) :
    ∃ u v w : K, u * a.x + v * a.y ≤ w ∧ u * b.x + v * b.y ≤ w ∧ w < u * q.x + v * q.y := by
  rcases eq_or_ne a b with rfl | hne
  · rw [onSegment_self_iff, ext_iff'] at h
    refine ⟨q.x - a.x, q.y - a.y, _, le_rfl, le_rfl, ?_⟩
    have hx := mul_self_nonneg (q.x - a.x)
    have hy := mul_self_nonneg (q.y - a.y)
    by_contra hle
    exact h ⟨sub_eq_zero.mp (mul_self_eq_zero.mp (by linarith)),
      sub_eq_zero.mp (mul_self_eq_zero.mp (by linarith))⟩
  have hlen := add_nonneg (mul_self_nonneg (b.x - a.x)) (mul_self_nonneg (b.y - a.y))
  -- to one side of the line, or on it but before or behind the segment
  rcases lt_trichotomy (doubleArea a b q) 0 with hD | hD | hD
  · rw [doubleArea_eq] at hD
    exact ⟨b.y - a.y, -(b.x - a.x), _, le_rfl, by linarith, by linarith⟩
  · by_cases h0 : 0 ≤ (q.x - a.x) * (b.x - a.x) + (q.y - a.y) * (b.y - a.y)
    · have h1 := mt (onSegment_of_dot hD hne h0) h
      exact ⟨b.x - a.x, b.y - a.y, _, by linarith, le_rfl, by linarith⟩
    · exact ⟨-(b.x - a.x), -(b.y - a.y), _, le_rfl, by linarith, by linarith⟩
  · rw [doubleArea_eq] at hD
    exact ⟨-(b.y - a.y), b.x - a.x, _, le_rfl, by linarith, by linarith⟩

/-- A point off a segment can move a little in any direction and stay off. -/
private theorem exists_off_of_not_onSegment (h : ¬OnSegment a b p) (c : Point2 K) :
    ∃ s, 0 < s ∧ s < 1 ∧ ∀ t, 0 ≤ t → t ≤ s → ¬OnSegment a b (lerp p c t) := by
  obtain ⟨u, v, w, ha, hb, hp⟩ := exists_separating h
  -- at `lerp p c t` the function exceeds its bound on the segment by `g - t * k`
  have hg : 0 < u * p.x + v * p.y - w := by linarith
  generalize hgeq : u * p.x + v * p.y - w = g at hg
  generalize hkeq : u * (p.x - c.x) + v * (p.y - c.y) = k
  have hk := abs_nonneg k
  have hpos : 0 < g + |k| + 1 := by linarith
  refine ⟨g / (g + |k| + 1), div_pos hg hpos, (div_lt_one hpos).mpr (by linarith), ?_⟩
  rintro t ht0 hts ⟨s, hs0, hs1, hs⟩
  rw [ext_iff', lerp_x, lerp_x, lerp_y, lerp_y] at hs
  have hbound : u * (lerp a b s).x + v * (lerp a b s).y ≤ w := by
    have h1 := mul_le_mul_of_nonneg_left ha (sub_nonneg.mpr hs1)
    have h2 := mul_le_mul_of_nonneg_left hb hs0
    simp only [lerp_x, lerp_y]
    linarith
  have hvalue : u * (lerp a b s).x + v * (lerp a b s).y - w = g - t * k := by
    rw [lerp_x, lerp_y, ← hs.1, ← hs.2, ← hgeq, ← hkeq]
    ring
  have htk : t * k ≤ t * |k| := mul_le_mul_of_nonneg_left (le_abs_self k) ht0
  have hts' : t * (g + |k| + 1) ≤ g := (le_div_iff₀ hpos).mp hts
  have htg : 0 ≤ t * g := mul_nonneg ht0 hg.le
  rcases ht0.eq_or_lt with rfl | ht
  · linarith
  · linarith

private theorem exists_off_of_off {edges : List (Point2 K × Point2 K)}
    (h : ∀ e ∈ edges, ¬OnSegment e.1 e.2 p) (c : Point2 K) :
    ∃ s, 0 < s ∧ s < 1 ∧ ∀ e ∈ edges, ∀ t, 0 ≤ t → t ≤ s → ¬OnSegment e.1 e.2 (lerp p c t) := by
  induction edges with
  | nil => exact ⟨1 / 2, by norm_num, by norm_num, fun e he ↦ absurd he List.not_mem_nil⟩
  | cons e edges ih =>
    rw [List.forall_mem_cons] at h
    obtain ⟨s, hs0, hs1, hs⟩ := exists_off_of_not_onSegment h.1 c
    obtain ⟨r, hr0, hr1, hr⟩ := ih h.2
    refine ⟨min s r, lt_min hs0 hr0, (min_le_left s r).trans_lt hs1, ?_⟩
    rw [List.forall_mem_cons]
    exact ⟨fun t ht0 ht ↦ hs t ht0 (ht.trans (min_le_left s r)),
      fun e he t ht0 ht ↦ hr e he t ht0 (ht.trans (min_le_right s r))⟩

/-! ## Segments that meet -/

/-- Have the two segments no point in common? -/
def Apart (a b c d : Point2 K) : Prop := ∀ q, OnSegment a b q → ¬OnSegment c d q

omit [IsStrictOrderedRing K] in
theorem Apart.symm (h : Apart a b c d) : Apart c d a b := fun q hc ha ↦ h q ha hc

theorem Apart.swap_left (h : Apart a b c d) :
    Apart b a c d := fun q hq ↦ h q hq.symm

theorem Apart.swap_right (h : Apart a b c d) :
    Apart a b d c := fun q hq hq' ↦ h q hq hq'.symm

/-- **A small step.** A point off finitely many segments can step in any direction without
meeting them. -/
theorem exists_apart_of_off {edges : List (Point2 K × Point2 K)}
    (h : ∀ e ∈ edges, ¬OnSegment e.1 e.2 p) (c : Point2 K) :
    ∃ s, 0 < s ∧ s < 1 ∧ ∀ e ∈ edges, Apart e.1 e.2 p (lerp p c s) := by
  obtain ⟨s, hs0, hs1, hs⟩ := exists_off_of_off h c
  refine ⟨s, hs0, hs1, ?_⟩
  rintro e he q hq ⟨t, ht0, ht1, rfl⟩
  rw [lerp_lerp_right] at hq
  exact hs e he _ (mul_nonneg hs0.le ht0) (mul_le_of_le_one_right hs0.le ht1) hq

theorem apart_of_mul_pos (h : 0 < doubleArea a b c * doubleArea a b d ∨
    0 < doubleArea c d a * doubleArea c d b) : Apart a b c d := by
  have hside : ∀ {a b c d : Point2 K}, 0 < doubleArea a b c * doubleArea a b d →
      Apart a b c d := by
    intro a b c d h q hq hq'
    have h0 := hq.doubleArea_eq_zero
    obtain ⟨s, hs0, hs1, hs⟩ := hq'.doubleArea_mem a b
    rw [h0] at hs
    rcases pos_and_pos_or_neg_and_neg_of_mul_pos h with ⟨hc, hd⟩ | ⟨hc, hd⟩
    · have h1 := mul_nonneg (sub_nonneg.mpr hs1) hc.le
      have h2 := mul_nonneg hs0 hd.le
      rcases hs0.eq_or_lt with rfl | hs0
      · linarith
      · linarith [mul_pos hs0 hd]
    · have h1 := mul_nonneg (sub_nonneg.mpr hs1) (neg_nonneg.mpr hc.le)
      have h2 := mul_nonneg hs0 (neg_nonneg.mpr hd.le)
      rcases hs0.eq_or_lt with rfl | hs0
      · linarith
      · linarith [mul_pos hs0 (neg_pos.mpr hd)]
  rcases h with h | h
  · exact hside h
  · exact (hside h).symm

theorem exists_common {p p' q q' : Point2 K} (hp : OnSegment a b p) (hp' : OnSegment a b p')
    (hq : OnSegment c d q) (hq' : OnSegment c d q') (hy : p.y = q.y) (hy' : p'.y = q'.y)
    (hx : p.x ≤ q.x) (hx' : q'.x ≤ p'.x) : ∃ r, OnSegment a b r ∧ OnSegment c d r := by
  rcases hx.eq_or_lt with hxe | hxl
  · obtain rfl : p = q := ext_iff'.mpr ⟨hxe, hy⟩
    exact ⟨p, hp, hq⟩
  have hpos : 0 < q.x - p.x + (p'.x - q'.x) := by linarith
  have hcommon : lerp p p' ((q.x - p.x) / (q.x - p.x + (p'.x - q'.x)))
      = lerp q q' ((q.x - p.x) / (q.x - p.x + (p'.x - q'.x))) := by
    rw [ext_iff']
    constructor
    · simp only [lerp_x]
      field_simp
      ring
    · simp only [lerp_y, hy, hy']
  have h0 : 0 ≤ (q.x - p.x) / (q.x - p.x + (p'.x - q'.x)) := div_nonneg (by linarith) hpos.le
  have h1 : (q.x - p.x) / (q.x - p.x + (p'.x - q'.x)) ≤ 1 :=
    (div_le_one hpos).mpr (by linarith)
  exact ⟨_, hp.trans hp' ⟨_, h0, h1, rfl⟩, hq.trans hq' ⟨_, h0, h1, hcommon⟩⟩

/-- A rising segment passes each height between its ends: left of the points on its right, and
right of those on its left. -/
theorem exists_onSegment_height (hab : a.y < b.y) (ha : a.y ≤ q.y) (hb : q.y ≤ b.y) :
    ∃ p, OnSegment a b p ∧ p.y = q.y ∧ (doubleArea a b q < 0 ↔ p.x < q.x) ∧
      (0 < doubleArea a b q ↔ q.x < p.x) := by
  have hpos : 0 < b.y - a.y := sub_pos.mpr hab
  have hD : doubleArea a b q
      = (b.y - a.y) * ((lerp a b ((q.y - a.y) / (b.y - a.y))).x - q.x) := by
    rw [doubleArea_eq, lerp_x]
    field_simp
    ring
  refine ⟨lerp a b ((q.y - a.y) / (b.y - a.y)),
    ⟨_, div_nonneg (by linarith) hpos.le, (div_le_one hpos).mpr (by linarith), rfl⟩, ?_, ?_, ?_⟩
  · rw [lerp_y, mul_div_cancel₀ _ hpos.ne']
    ring
  · rw [hD, ← neg_pos, ← mul_neg, neg_sub, mul_pos_iff_of_pos_left hpos, sub_pos]
  · rw [hD, mul_pos_iff_of_pos_left hpos, sub_pos]

end Point2

end SolidModel
