import Mathlib
import SolidModel.Proofs.Plane.Sides
import SolidModel.Proofs.Polygon.Proper

/-!
# Corners of a proper loop

What a loop can do near one of its clockwise corners `a, t, b`. No edge enters the triangle of
the corner through its two edges, so an edge that is somewhere inside ends inside, see
`IsCorner.inHull_of_onSegment`. If no other vertex is in the triangle, then nothing of the loop
is, and the corner can be cut off; otherwise the segment from the tip to the vertex furthest
from the opposite side meets nothing of the loop.
-/

namespace SolidModel

open Point2
open VectorOps (lerp)

namespace Polyline

variable {K : Type} {a b c d q t x z : Point2 K} {loop l m : List (Point2 K)}

/-- Do `a`, `t` and `b` follow each other in the loop? -/
def IsCorner (loop : List (Point2 K)) (a t b : Point2 K) : Prop :=
  (a, t) ∈ cyclicPairs loop ∧ (t, b) ∈ cyclicPairs loop

namespace IsCorner

theorem of_isRotated (h : IsCorner l a t b) (hrot : l ~r m) : IsCorner m a t b :=
  ⟨(mem_cyclicPairs_iff hrot).mp h.1, (mem_cyclicPairs_iff hrot).mp h.2⟩

theorem mem (h : IsCorner loop a t b) : a ∈ loop ∧ t ∈ loop ∧ b ∈ loop :=
  ⟨fst_mem_of_mem_cyclicPairs h.1, snd_mem_of_mem_cyclicPairs h.1, snd_mem_of_mem_cyclicPairs h.2⟩

theorem eq_of_end (h : IsCorner loop a t b) (hnd : loop.Nodup) {e : Point2 K × Point2 K}
    (he : e ∈ cyclicPairs loop) (ht : e.1 = t ∨ e.2 = t) : e = (a, t) ∨ e = (t, b) := by
  obtain ⟨e₁, e₂⟩ := e
  rcases ht with rfl | rfl
  · exact .inr (by rw [eq_of_mem_cyclicPairs hnd he h.2])
  · exact .inl (by rw [eq_of_mem_cyclicPairs' hnd he h.1])

theorem base_notMem (h : IsCorner loop a t b) (hnd : loop.Nodup) (h4 : 4 ≤ loop.length) :
    (a, b) ∉ cyclicPairs loop ∧ (b, a) ∉ cyclicPairs loop := by
  obtain ⟨l, hrot⟩ := exists_isRotated_of_corner hnd (by omega) h.1 h.2
  rw [hrot.perm.length_eq] at h4
  have hnd' := hrot.nodup_iff.mp hnd
  cases l with
  | nil => simp at h4
  | cons c l =>
    have hbc : (b, c) ∈ cyclicPairs loop := by
      rw [mem_cyclicPairs_iff hrot, cyclicPairs_cons]
      simp
    simp only [List.nodup_cons, List.mem_cons, not_or] at hnd'
    constructor
    · intro hab
      exact hnd'.2.1.1 (eq_of_mem_cyclicPairs hnd hab h.1).symm
    · intro hba
      exact hnd'.1.2.2.1 (eq_of_mem_cyclicPairs hnd hba hbc)

end IsCorner

theorem isCorner_cons (a t b : Point2 K) (l : List (Point2 K)) :
    IsCorner (a :: t :: b :: l) a t b := by
  rw [IsCorner, cyclicPairs_cons]
  simp

theorem cyclicPairs_corner (a t b : Point2 K) (l : List (Point2 K)) :
    cyclicPairs (a :: t :: b :: l) = (a, t) :: (t, b) :: links (b :: l ++ [a]) := by
  rw [cyclicPairs_cons]
  simp

theorem cyclicPairs_rest (a b : Point2 K) (l : List (Point2 K)) :
    cyclicPairs (a :: b :: l) = (a, b) :: links (b :: l ++ [a]) := by
  rw [cyclicPairs_cons]
  simp

theorem mem_of_mem_rest {e : Point2 K × Point2 K} (he : e ∈ links (b :: l ++ [a])) :
    e ∈ cyclicPairs (a :: t :: b :: l) := by
  rw [cyclicPairs_corner]
  exact List.mem_cons_of_mem _ (List.mem_cons_of_mem _ he)

theorem four_le_length (hl : l ≠ []) : 4 ≤ (a :: t :: b :: l).length := by
  have := List.length_pos_iff.mpr hl
  simp only [List.length_cons]
  omega

variable [Field K] [LinearOrder K] [FloorRing K]

theorem avoids_rest_iff : Avoids (a :: b :: l) q ↔
    ¬OnSegment a b q ∧ ∀ e ∈ links (b :: l ++ [a]), ¬OnSegment e.1 e.2 q := by
  rw [Avoids, cyclicPairs_rest, List.forall_mem_cons]

theorem Avoids.of_rest (h : Avoids (a :: b :: l) q) (hat : ¬OnSegment a t q)
    (htb : ¬OnSegment t b q) : Avoids (a :: t :: b :: l) q := by
  intro e he
  rw [cyclicPairs_corner, List.mem_cons, List.mem_cons] at he
  rcases he with rfl | rfl | he
  · exact hat
  · exact htb
  · exact (avoids_rest_iff.mp h).2 e he

theorem IsProper.ne_tip (h : IsProper (a :: t :: b :: l)) {e : Point2 K × Point2 K}
    (he : e ∈ links (b :: l ++ [a])) : e.1 ≠ t ∧ e.2 ≠ t := by
  have hnd := h.nodup
  simp only [List.nodup_cons, List.mem_cons, not_or] at hnd
  have ht : t ∉ b :: l ++ [a] := by
    simp only [List.cons_append, List.mem_cons, List.mem_append, List.not_mem_nil, or_false,
      not_or]
    exact ⟨hnd.2.1.1, hnd.2.1.2, Ne.symm hnd.1.1⟩
  exact ⟨fun h ↦ ht (h ▸ fst_mem_of_mem_links he),
    fun h ↦ ht (h ▸ List.mem_cons_of_mem _ (snd_mem_of_mem_links he))⟩

/-! ## Vacant corners -/

/-- Does the triangle of the corner hold no other vertex of the loop? -/
def IsVacant (loop : List (Point2 K)) (a t b : Point2 K) : Prop :=
  ∀ u ∈ loop, InHull a t b u → u = a ∨ u = t ∨ u = b

theorem IsVacant.of_isRotated (h : IsVacant l a t b) (hrot : l ~r m) : IsVacant m a t b :=
  fun u hu ↦ h u (hrot.mem_iff.mpr hu)

theorem exists_furthest (h : ¬IsVacant loop a t b) :
    ∃ z ∈ loop, InHull a t b z ∧ (z ≠ a ∧ z ≠ t ∧ z ≠ b) ∧ ∀ u ∈ loop, InHull a t b u →
      u = a ∨ u = t ∨ u = b ∨ doubleArea b a z ≤ doubleArea b a u := by
  classical
  obtain ⟨u, hu, hin, hne⟩ : ∃ u ∈ loop, InHull a t b u ∧ ¬(u = a ∨ u = t ∨ u = b) := by
    simpa only [IsVacant, not_forall, exists_prop] using h
  obtain ⟨z, hz, hmin⟩ := (loop.toFinset.filter fun u ↦
    InHull a t b u ∧ ¬(u = a ∨ u = t ∨ u = b)).exists_min_image (doubleArea b a)
      ⟨u, by simpa using ⟨hu, hin, by simpa using hne⟩⟩
  simp only [Finset.mem_filter, List.mem_toFinset] at hz hmin
  refine ⟨z, hz.1, hz.2.1, by simpa only [not_or] using hz.2.2, fun u hu hin ↦ ?_⟩
  by_cases hu' : u = a ∨ u = t ∨ u = b
  · tauto
  · exact .inr (.inr (.inr (hmin u ⟨hu, hin, hu'⟩)))

namespace IsCorner

theorem ne_tip_of_onSegment (h : IsCorner loop a t b) (hnd : loop.Nodup) {e : Point2 K × Point2 K}
    (he : e ∈ cyclicPairs loop) (hx : OnSegment e.1 e.2 x) (hat : doubleArea a t x < 0)
    (htb : doubleArea t b x < 0) (hc : c = e.1 ∨ c = e.2) : c ≠ t := by
  rintro rfl
  rcases h.eq_of_end hnd he (hc.imp Eq.symm Eq.symm) with rfl | rfl
  · exact hat.ne hx.doubleArea_eq_zero
  · exact htb.ne hx.doubleArea_eq_zero

theorem other_end_on_line (hbase : doubleArea b a x = 0) (hxa : x ≠ a) (hxb : x ≠ b)
    (hx : OnSegment c d x) (hc : c = a ∨ c = b) : doubleArea b a d = 0 := by
  have hc0 : doubleArea b a c = 0 := by
    rcases hc with rfl | rfl
    · exact doubleArea_self_right b c
    · exact doubleArea_self_outer c a
  obtain ⟨r, hr0, hr1, rfl⟩ := hx
  have hr0 : r ≠ 0 := by
    rintro rfl
    rw [lerp_zero] at hxa hxb
    exact hc.elim hxa hxb
  rw [doubleArea_lerp, hc0, mul_zero, zero_add] at hbase
  exact (mul_eq_zero.mp hbase).resolve_left hr0

variable [IsStrictOrderedRing K]

/-- **Edges do not leave the triangle at the tip.** If an edge has a point in the triangle of a
clockwise corner, off the edges of the corner, then its ends are in the triangle, unless they
are beyond the opposite side. -/
theorem inHull_of_onSegment (h : IsCorner loop a t b) (hP : IsProper loop)
    (hD : doubleArea a t b < 0) {e : Point2 K × Point2 K} (he : e ∈ cyclicPairs loop)
    (hx : OnSegment e.1 e.2 x) (hin : InHull a t b x) (hat : doubleArea a t x < 0)
    (htb : doubleArea t b x < 0) (hc : c = e.1 ∨ c = e.2) (hside : doubleArea b a c ≤ 0) :
    InHull a t b c := by
  by_contra hout
  obtain ⟨r, hr, hr'⟩ := exists_exit hD hin hat htb hout hside
  have hre : OnSegment e.1 e.2 r := by
    rcases hc with rfl | rfl
    · exact hx.trans (onSegment_left _ _) hr
    · exact hx.trans (onSegment_right _ _) hr
  -- where it leaves, it meets an edge of the corner, so an end of both is there
  obtain ⟨hend, hcorner⟩ : (r = e.1 ∨ r = e.2) ∧ (r = a ∨ r = t ∨ r = b) := by
    rcases hr' with hr' | hr'
    · have hne : e ≠ (a, t) := by
        rintro rfl
        exact hat.ne hx.doubleArea_eq_zero
      exact (hP.meet e he _ h.1 hne r hre hr').imp_right fun h ↦ by tauto
    · have hne : e ≠ (t, b) := by
        rintro rfl
        exact htb.ne hx.doubleArea_eq_zero
      exact (hP.meet e he _ h.2 hne r hre hr').imp_right fun h ↦ by tauto
  by_cases hrc : r = c
  · refine hout ?_
    rw [← hrc]
    rcases hcorner with rfl | rfl | rfl
    · exact inHull_left _ _ _
    · exact inHull_middle _ _ _
    · exact inHull_right _ _ _
  · have hxr : x = r := by
      rcases hc with rfl | rfl
      · obtain rfl : r = e.2 := hend.resolve_left hrc
        exact hx.eq_right hr
      · obtain rfl : r = e.1 := hend.resolve_right hrc
        exact hx.symm.eq_right hr
    rw [hxr] at hat htb
    rcases hcorner with rfl | rfl | rfl
    · exact hat.ne (doubleArea_self_outer _ _)
    · exact hat.ne (doubleArea_self_right _ _)
    · exact htb.ne (doubleArea_self_right _ _)

theorem exists_end_le {e : Point2 K × Point2 K} (hx : OnSegment e.1 e.2 x) (p q : Point2 K) :
    ∃ c, (c = e.1 ∨ c = e.2) ∧ doubleArea p q c ≤ doubleArea p q x := by
  obtain ⟨s, hs0, hs1, hs⟩ := hx.doubleArea_mem p q
  by_contra hlt
  have h1 := not_le.mp fun hle ↦ hlt ⟨e.1, .inl rfl, hle⟩
  have h2 := not_le.mp fun hle ↦ hlt ⟨e.2, .inr rfl, hle⟩
  have h3 := mul_le_mul_of_nonneg_left h1.le (sub_nonneg.mpr hs1)
  rcases hs0.eq_or_lt with rfl | hs0
  · linarith
  · have h4 := mul_lt_mul_of_pos_left h2 hs0
    linarith

/-- **Only the edges at the tip** are in a vacant triangle, short of the opposite side. -/
theorem end_eq_tip (h : IsCorner loop a t b) (hP : IsProper loop) (hD : doubleArea a t b < 0)
    (hvac : IsVacant loop a t b) {e : Point2 K × Point2 K} (he : e ∈ cyclicPairs loop)
    (hx : OnSegment e.1 e.2 x) (hin : InHull a t b x) (hside : doubleArea b a x < 0) :
    e.1 = t ∨ e.2 = t := by
  obtain ⟨h1, h2, -⟩ := (inHull_iff hD).mp hin
  have hDt : doubleArea t b a < 0 := by rwa [← doubleArea_rotate]
  rcases h1.eq_or_lt with h1 | h1
  · have hxt := hin.onSegment_of_line hD h1
    by_cases hne : e = (a, t)
    · exact .inr (by rw [hne])
    · obtain ⟨hend, hxa | hxt⟩ := hP.meet e he _ h.1 hne x hx hxt
      · rw [hxa, doubleArea_self_right] at hside
        exact absurd hside (lt_irrefl 0)
      · exact hend.imp (fun hxe ↦ hxe.symm.trans hxt) fun hxe ↦ hxe.symm.trans hxt
  rcases h2.eq_or_lt with h2 | h2
  · have hxt := hin.rotate.onSegment_of_line hDt h2
    by_cases hne : e = (t, b)
    · exact .inl (by rw [hne])
    · obtain ⟨hend, hxt | hxb⟩ := hP.meet e he _ h.2 hne x hx hxt
      · exact hend.imp (fun hxe ↦ hxe.symm.trans hxt) fun hxe ↦ hxe.symm.trans hxt
      · rw [hxb, doubleArea_self_outer] at hside
        exact absurd hside (lt_irrefl 0)
  -- one end is as far on the side of the tip, hence in the triangle
  exfalso
  obtain ⟨c, hc, hle⟩ := exists_end_le hx b a
  have hcin := h.inHull_of_onSegment hP hD he hx hin h1 h2 hc (hle.trans hside.le)
  rcases hvac c (mem_of_end he hc) hcin with rfl | rfl | rfl
  · rw [doubleArea_self_right] at hle
    linarith
  · exact h.ne_tip_of_onSegment hP.nodup he hx h1 h2 hc rfl
  · rw [doubleArea_self_outer] at hle
    linarith

/-- **The opposite side of a vacant triangle** meets the loop only in its ends. -/
theorem meetAtEnds_base (h : IsCorner loop a t b) (hP : IsProper loop) (hD : doubleArea a t b < 0)
    (hvac : IsVacant loop a t b) (h4 : 4 ≤ loop.length) :
    ∀ e ∈ cyclicPairs loop, MeetAtEnds (a, b) e := by
  intro e he x hx hxe
  by_cases hxa : x = a
  · exact ⟨.inl hxa, hP.eq_of_onSegment he (hxa ▸ h.mem.1) hxe⟩
  by_cases hxb : x = b
  · exact ⟨.inr hxb, hP.eq_of_onSegment he (hxb ▸ h.mem.2.2) hxe⟩
  exfalso
  have hDt : doubleArea t b a < 0 := by rwa [← doubleArea_rotate]
  have hbase : doubleArea b a x = 0 := by
    rw [doubleArea_swap, hx.doubleArea_eq_zero, neg_zero]
  have hin : InHull a t b x := (inHull_left a t b).of_onSegment (inHull_right a t b) hx
  obtain ⟨h1, h2⟩ : doubleArea a t x < 0 ∧ doubleArea t b x < 0 := by
    obtain ⟨s, hs0, hs1, rfl⟩ := hx.exists_inner hxa hxb
    rw [doubleArea_lerp, doubleArea_lerp, doubleArea_self_outer, doubleArea_self_right, mul_zero,
      mul_zero, zero_add, add_zero]
    exact ⟨mul_neg_of_pos_of_neg hs0 hD, mul_neg_of_pos_of_neg (sub_pos.mpr hs1) hDt⟩
  -- an end that is not beyond the side is one of its ends, since it is not the tip
  have hend : ∀ c, (c = e.1 ∨ c = e.2) → doubleArea b a c ≤ 0 → c = a ∨ c = b := by
    intro c hc hside
    have hcin := h.inHull_of_onSegment hP hD he hxe hin h1 h2 hc hside
    rcases hvac c (mem_of_end he hc) hcin with hca | hct | hcb
    · exact .inl hca
    · exact absurd hct (h.ne_tip_of_onSegment hP.nodup he hxe h1 h2 hc)
    · exact .inr hcb
  -- one end is, hence so is the other, and the side itself would be an edge
  obtain ⟨c, hc, hle⟩ := exists_end_le hxe b a
  obtain ⟨h3, h4'⟩ : (e.1 = a ∨ e.1 = b) ∧ (e.2 = a ∨ e.2 = b) := by
    have hcab := hend c hc (hle.trans hbase.le)
    rcases hc with rfl | rfl
    · exact ⟨hcab, hend _ (.inr rfl) (other_end_on_line hbase hxa hxb hxe hcab).le⟩
    · exact ⟨hend _ (.inl rfl) (other_end_on_line hbase hxa hxb hxe.symm hcab).le, hcab⟩
  obtain ⟨hab, hba⟩ := h.base_notMem hP.nodup h4
  have hne := hP.fst_ne_snd he
  rcases h3 with h3 | h3 <;> rcases h4' with h4' | h4'
  · exact hne (h3.trans h4'.symm)
  · exact hab ((Prod.ext h3 h4' : e = (a, b)) ▸ he)
  · exact hba ((Prod.ext h3 h4' : e = (b, a)) ▸ he)
  · exact hne (h3.trans h4'.symm)

theorem doubleArea_neg_of_inHull (h : IsCorner loop a t b) (hP : IsProper loop)
    (hD : doubleArea a t b < 0) (hz : z ∈ loop) (hin : InHull a t b z)
    (hne : z ≠ a ∧ z ≠ t ∧ z ≠ b) : doubleArea a t z < 0 ∧ doubleArea t b z < 0 := by
  have hDt : doubleArea t b a < 0 := by rwa [← doubleArea_rotate]
  obtain ⟨h1, h2, -⟩ := (inHull_iff hD).mp hin
  constructor
  · refine h1.lt_of_ne fun h0 ↦ ?_
    exact (hP.eq_of_onSegment h.1 hz (hin.onSegment_of_line hD h0)).elim hne.1 hne.2.1
  · refine h2.lt_of_ne fun h0 ↦ ?_
    exact (hP.eq_of_onSegment h.2 hz (hin.rotate.onSegment_of_line hDt h0)).elim hne.2.1 hne.2.2

/-- **To the furthest vertex in the triangle.** The segment from the tip to a vertex in the
triangle than which none is further from the opposite side meets the loop only in its ends. -/
theorem meetAtEnds_furthest (h : IsCorner loop a t b) (hP : IsProper loop)
    (hD : doubleArea a t b < 0) (hz : z ∈ loop) (hin : InHull a t b z)
    (hne : z ≠ a ∧ z ≠ t ∧ z ≠ b) (hfar : ∀ u ∈ loop, InHull a t b u → u = a ∨ u = t ∨ u = b ∨
      doubleArea b a z ≤ doubleArea b a u) :
    ∀ e ∈ cyclicPairs loop, MeetAtEnds (t, z) e := by
  intro e he x hx hxe
  by_cases hxt : x = t
  · exact ⟨.inl hxt, hP.eq_of_onSegment he (hxt ▸ h.mem.2.1) hxe⟩
  by_cases hxz : x = z
  · exact ⟨.inr hxz, hP.eq_of_onSegment he (hxz ▸ hz) hxe⟩
  exfalso
  have hz3 := ((inHull_iff hD).mp hin).2.2
  obtain ⟨hz1, hz2⟩ := h.doubleArea_neg_of_inHull hP hD hz hin hne
  have hsum := doubleArea_add_add a t b z
  rw [← doubleArea_rotate b a t] at hsum
  have hxin : InHull a t b x := (inHull_middle a t b).of_onSegment hin hx
  obtain ⟨s, hs0, hs1, rfl⟩ := hx.exists_inner hxt hxz
  have h1 : doubleArea a t (lerp t z s) < 0 := by
    rw [doubleArea_lerp, doubleArea_self_right, mul_zero, zero_add]
    exact mul_neg_of_pos_of_neg hs0 hz1
  have h2 : doubleArea t b (lerp t z s) < 0 := by
    rw [doubleArea_lerp, doubleArea_self_outer, mul_zero, zero_add]
    exact mul_neg_of_pos_of_neg hs0 hz2
  -- the tip is further than `z`, hence so is every point on the way
  have h3 : doubleArea b a (lerp t z s) < doubleArea b a z := by
    have := mul_pos (sub_pos.mpr hs1) (show 0 < doubleArea b a z - doubleArea b a t by linarith)
    rw [doubleArea_lerp]
    linarith
  obtain ⟨c, hc, hle⟩ := exists_end_le hxe b a
  have hcin := h.inHull_of_onSegment hP hD he hxe hxin h1 h2 hc (by linarith)
  rcases hfar c (mem_of_end he hc) hcin with rfl | rfl | rfl | hfar
  · rw [doubleArea_self_right] at hle
    linarith
  · exact h.ne_tip_of_onSegment hP.nodup he hxe h1 h2 hc rfl
  · rw [doubleArea_self_outer] at hle
    linarith
  · linarith

end IsCorner

/-! ## Cutting a corner off -/

variable [IsStrictOrderedRing K]

namespace IsProper

theorem rest (h : IsProper (a :: t :: b :: l)) (hl : l ≠ [])
    (hbase : ∀ e ∈ links (b :: l ++ [a]), MeetAtEnds (a, b) e) : IsProper (a :: b :: l) := by
  have hrot : [a, t] ++ b :: l ~r b :: l ++ a :: [t] := List.isRotated_append
  exact ((h.of_isRotated hrot).cut hl fun e he ↦ (hbase e he).swap_left).of_isRotated
    (List.isRotated_concat a (b :: l))

/-- **A flat tip** is in the middle of a straight side and can be left out. -/
theorem rest_of_flat (h : IsProper (a :: t :: b :: l)) (hl : l ≠ [])
    (hD : doubleArea a t b = 0) : IsProper (a :: b :: l) := by
  obtain ⟨hat, htb⟩ := isCorner_cons a t b l
  have hnd := h.nodup
  simp only [List.nodup_cons, List.mem_cons, not_or] at hnd
  have hmid : OnSegment a b t := by
    rcases exists_between hD with hb | ha | ht
    · rcases h.eq_of_onSegment hat (by simp) hb with h | h
      · exact absurd h.symm hnd.1.2.1
      · exact absurd h.symm hnd.2.1.1
    · rcases h.eq_of_onSegment htb (by simp) ha with h | h
      · exact absurd h hnd.1.1
      · exact absurd h hnd.1.2.1
    · exact ht.symm
  refine h.rest hl fun e he x hx hxe ↦ ?_
  have hmem : e ∈ cyclicPairs (a :: t :: b :: l) := mem_of_mem_rest he
  obtain ⟨h1, h2⟩ := h.ne_tip he
  have hne : e ≠ (a, t) ∧ e ≠ (t, b) := ⟨fun h ↦ h2 (by rw [h]), fun h ↦ h1 (by rw [h])⟩
  -- the side consists of the two edges at the tip
  obtain ⟨hend, hx⟩ : (x = e.1 ∨ x = e.2) ∧ (x = a ∨ x = t ∨ x = b) := by
    rcases onSegment_split hmid hx with hx | hx
    · exact (h.meet e hmem _ hat hne.1 x hxe hx.symm).imp_right fun h ↦ by tauto
    · exact (h.meet e hmem _ htb hne.2 x hxe hx).imp_right fun h ↦ by tauto
  refine ⟨?_, hend⟩
  rcases hx with hx | hx | hx
  · exact .inl hx
  · exact hend.elim (fun h ↦ absurd (h.symm.trans hx) h1) fun h ↦ absurd (h.symm.trans hx) h2
  · exact .inr hx

/-- **Cutting off a vacant corner.** -/
theorem rest_of_vacant (h : IsProper (a :: t :: b :: l)) (hl : l ≠ []) (hD : doubleArea a t b < 0)
    (hvac : IsVacant (a :: t :: b :: l) a t b) : IsProper (a :: b :: l) := by
  refine h.rest hl fun e he ↦ ?_
  exact (isCorner_cons a t b l).meetAtEnds_base h hD hvac (four_le_length hl) e (mem_of_mem_rest he)

end IsProper

/-- The rest winds around all points of the vacant triangle, off the cut, equally often, since
between two of them there is nothing of the loop but edges at the tip. -/
private theorem winding_rest_eq (h : IsProper (a :: t :: b :: l)) (hD : doubleArea a t b < 0)
    (hvac : IsVacant (a :: t :: b :: l) a t b) (hq : InHull a t b q) (hqD : doubleArea b a q < 0)
    (hx : InHull a t b x) (hxD : doubleArea b a x < 0) :
    winding (a :: b :: l) q = winding (a :: b :: l) x := by
  refine winding_eq_of_apart fun e he r hr hr' ↦ ?_
  have hrin : InHull a t b r := hq.of_onSegment hx hr'
  have hrD : doubleArea b a r < 0 := hr'.doubleArea_neg hqD hxD
  rw [cyclicPairs_rest, List.mem_cons] at he
  rcases he with rfl | he
  · rw [doubleArea_swap, hr.doubleArea_eq_zero, neg_zero] at hrD
    exact hrD.false
  · obtain ⟨h1, h2⟩ := h.ne_tip he
    have hcorner := isCorner_cons a t b l
    exact (hcorner.end_eq_tip h hD hvac (mem_of_mem_rest he) hr hrin hrD).elim h1 h2

/-- **Next to the cut.** Once a vacant corner is cut off, the loop winds around all points of its
triangle, off the cut, once more than around some point beyond the cut. -/
theorem exists_beyond (h : IsProper (a :: t :: b :: l)) (hl : l ≠ []) (hD : doubleArea a t b < 0)
    (hvac : IsVacant (a :: t :: b :: l) a t b) :
    ∃ y, Avoids (a :: b :: l) y ∧ ∀ q, InHull a t b q → doubleArea b a q < 0 →
      winding (a :: b :: l) q = winding (a :: b :: l) y + 1 := by
  have hDt : doubleArea t b a < 0 := by rwa [← doubleArea_rotate]
  have hcorner := isCorner_cons a t b l
  have hab : a ≠ b := by
    rintro rfl
    exact hD.ne (doubleArea_self_outer a t)
  have hm := onSegment_middle a b
  have hmat : doubleArea a t (middle a b) < 0 := by
    rw [doubleArea_middle, doubleArea_self_outer]
    linarith
  have hmtb : doubleArea t b (middle a b) < 0 := by
    rw [doubleArea_middle, doubleArea_self_right]
    linarith
  have hoff : ∀ e ∈ links (b :: l ++ [a]) ++ [(a, t), (t, b)],
      ¬OnSegment e.1 e.2 (middle a b) := by
    intro e he hme
    simp only [List.mem_append, List.mem_cons, List.not_mem_nil, or_false] at he
    rcases he with he | rfl | rfl
    · have hmeet := hcorner.meetAtEnds_base h hD hvac (four_le_length hl) e (mem_of_mem_rest he)
      exact (hmeet _ hm hme).1.elim (middle_ne_left hab) (middle_ne_right hab)
    · exact hmat.ne hme.doubleArea_eq_zero
    · exact hmtb.ne hme.doubleArea_eq_zero
  obtain ⟨x, y, hx, -, hnear, ⟨-, hy⟩, hcount⟩ := exists_sides _ hm (middle_ne_left hab)
    (middle_ne_right hab) (fun e he ↦ List.mem_append_left _ he) hoff
  rw [doubleArea_swap] at hx
  refine ⟨y, hy, fun q hq hqD ↦ ?_⟩
  have hxin : InHull a t b x := by
    by_contra hout
    obtain ⟨r, hr, hr'⟩ := exists_exit hD ((inHull_left a t b).of_onSegment (inHull_right a t b) hm)
      hmat hmtb hout (by linarith)
    rcases hr' with hr' | hr'
    · exact (hnear (a, t) (by simp)).1 r hr' hr
    · exact (hnear (t, b) (by simp)).1 r hr' hr
  rw [← hcount]
  exact winding_rest_eq h hD hvac hq hqD hxin (by linarith)

end Polyline

end SolidModel
