import Mathlib
import SolidModel.Proofs.EarClipping.Diagonals
import SolidModel.Proofs.EarClipping.Exact
import SolidModel.Proofs.Polygon.Interior

/-!
# Which loops are triangulated

A clockwise loop always has an ear, and clipping it leaves a clockwise loop. Were it not for the
tolerance, the clipper would therefore succeed on every simple clockwise loop. The tolerance
matters in two places. The leftmost vertex is missed if another one is nearly as far left and
lower, and a corner that is nearly flat is clipped even if it holds another vertex, which may
leave a ring that crosses itself. `LeftmostClear` and `SliversVacant` exclude the one and the
other, and `ofLoop_of_isSimple` says that nothing else can go wrong.
-/

namespace SolidModel

open Point2
open Polyline (IsProper IsSimple IsCorner IsVacant RunsClockwise Precedes)

variable {K : Type} {a b t : Point2 K} {loop m : List (Point2 K)}
variable {ring rest : List (Vertex K)} {ear c : Corner K}

namespace EarClipping

theorem CutsOff.isCorner (h : CutsOff ring ear rest) :
    IsCorner (ring.map Vertex.point) ear.before.point ear.tip.point ear.after.point := by
  obtain ⟨others, hrot, -⟩ := h.around
  exact (Polyline.isCorner_cons _ _ _ (others.map Vertex.point)).of_isRotated
    (hrot.map Vertex.point).symm

private theorem exists_mem_corners_tip {v : Vertex K} (hv : v ∈ ring) :
    ∃ c ∈ Vertex.corners ring, c.tip = v := by
  obtain ⟨i, hi, rfl⟩ := List.mem_iff_getElem.mp hv
  have hc := List.get_mem (Vertex.corners ring) ⟨i, by rwa [Vertex.length_corners]⟩
  rw [get_corners ring i hi] at hc
  exact ⟨_, hc, rfl⟩

end EarClipping

variable [Field K] [LinearOrder K] [FloorRing K]

namespace Polyline

/-- No vertex is lower than the leftmost one and to the right of it by less than the tolerance. -/
def LeftmostClear (loop : List (Point2 K)) : Prop :=
  ∀ v ∈ loop, (∀ u ∈ loop, u = v ∨ Precedes v u) →
    ∀ u ∈ loop, v.x < u.x → u.x < v.x + Scalar.areaEpsilon → v.y ≤ u.y

/-- No clockwise sliver of three vertices holds a fourth one. -/
def SliversVacant (loop : List (Point2 K)) : Prop :=
  ∀ a ∈ loop, ∀ t ∈ loop, ∀ b ∈ loop, -Scalar.areaEpsilon < doubleArea a t b →
    doubleArea a t b < 0 → IsVacant loop a t b

theorem SliversVacant.of_subset (h : SliversVacant loop) (hsub : m ⊆ loop) : SliversVacant m := by
  intro a ha t ht b hb hsliver hD u hu hin
  exact h a (hsub ha) t (hsub ht) b (hsub hb) hsliver hD u (hsub hu) hin

end Polyline

/-! ## Rings of numbered vertices -/

namespace EarClipping

theorem exists_noEar_of_clip {count : ℕ} {fault : Fault K} (h : clip count ring = .error fault) :
    ∃ left, fault = .noEar left := by
  induction count generalizing ring with
  | zero => cases h
  | succ count ih =>
    rw [clip] at h
    split at h
    next =>
      cases h
      exact ⟨_, rfl⟩
    next c _ =>
      cases hrest : clip count (ring.eraseP fun v ↦ v.index == c.tip.index) with
      | error fault' =>
        rw [hrest] at h
        cases h
        exact ih hrest
      | ok ears =>
        rw [hrest] at h
        cases h

theorem ofLoop_eq_error {fault : Fault K} (h : ears (Vertex.numbered loop) = .error fault) :
    Triangulation.ofLoop loop = .error fault := by
  rw [Triangulation.ofLoop, h]
  rfl

/-- A ring whose numbers and points tell its vertices apart, with points that form a clockwise
loop. -/
structure Clippable (ring : List (Vertex K)) : Prop where
  nodup : (ring.map Vertex.index).Nodup
  proper : IsProper (ring.map Vertex.point)
  clockwise : RunsClockwise (ring.map Vertex.point)

namespace Clippable

theorem three_le (h : Clippable ring) : 3 ≤ ring.length := by
  have := h.proper.three_le
  rwa [List.length_map] at this

theorem cutsOff (h : Clippable ring) (hc : c ∈ Vertex.corners ring) :
    CutsOff ring c (ring.eraseP fun v ↦ v.index == c.tip.index) :=
  cutsOff_of_mem_corners h.three_le h.nodup hc

theorem exists_mem_corners (h : Clippable ring)
    (hcorner : IsCorner (ring.map Vertex.point) a t b) : ∃ c ∈ Vertex.corners ring,
      c.before.point = a ∧ c.tip.point = t ∧ c.after.point = b := by
  obtain ⟨v, hv, rfl⟩ := List.mem_map.mp hcorner.mem.2.1
  obtain ⟨c, hc, rfl⟩ := exists_mem_corners_tip hv
  have hcorner' := (h.cutsOff hc).isCorner
  exact ⟨c, hc, Polyline.eq_of_mem_cyclicPairs' h.proper.nodup hcorner'.1 hcorner.1, rfl,
    Polyline.eq_of_mem_cyclicPairs h.proper.nodup hcorner'.2 hcorner.2⟩

theorem eq_of_point_eq (h : Clippable ring) {v w : Vertex K} (hv : v ∈ ring) (hw : w ∈ ring)
    (hvw : v.point = w.point) : v = w :=
  List.inj_on_of_nodup_map h.proper.nodup hv hw hvw

theorem eq_of_index_eq (h : Clippable ring) {v w : Vertex K} (hv : v ∈ ring) (hw : w ∈ ring)
    (hvw : v.index = w.index) : v = w :=
  List.inj_on_of_nodup_map h.nodup hv hw hvw

variable [IsStrictOrderedRing K]

/-- **The search for vertices in the corner** is exact unless the corner is a sliver. -/
theorem isFree_iff (h : Clippable ring) (hc : c ∈ Vertex.corners ring)
    (hD : doubleArea c.before.point c.tip.point c.after.point ≤ -Scalar.areaEpsilon) :
    c.isFree ring = true
      ↔ IsVacant (ring.map Vertex.point) c.before.point c.tip.point c.after.point := by
  obtain ⟨hb, ht, ha⟩ := (h.cutsOff hc).mem
  have htouches : ∀ v ∈ ring, c.touches v = true ↔
      v.point = c.before.point ∨ v.point = c.tip.point ∨ v.point = c.after.point := by
    intro v hv
    have hsame : ∀ w ∈ ring, v.index = w.index ↔ v.point = w.point := fun w hw ↦
      ⟨fun hvw ↦ by rw [h.eq_of_index_eq hv hw hvw], fun hvw ↦ by rw [h.eq_of_point_eq hv hw hvw]⟩
    simp only [Corner.touches, Bool.or_eq_true, beq_iff_eq, hsame _ hb, hsame _ ht, hsame _ ha]
    tauto
  rw [Corner.isFree, List.all_eq_true, IsVacant, List.forall_mem_map]
  refine forall₂_congr fun v hv ↦ ?_
  rw [Bool.or_eq_true, Bool.not_eq_true', ← Bool.not_eq_true, inTriangle_iff hD, htouches v hv]
  tauto

/-! ## Progress and preservation -/

/-- **There is an ear to clip.** -/
theorem exists_isEar (h : Clippable ring) :
    ∃ c ∈ Vertex.corners ring, c.isEar ring = true := by
  obtain ⟨e, he⟩ := h.proper.exists_edge
  obtain ⟨a, t, b, hear, -⟩ := h.clockwise.exists_ear e he
  obtain ⟨c, hc, rfl, rfl, rfl⟩ := h.exists_mem_corners hear.corner
  refine ⟨c, hc, ?_⟩
  rw [Corner.isEar_iff]
  refine ⟨hear.clockwise.le, ?_⟩
  by_cases hsliver : c.isSliver = true
  · exact .inl hsliver
  · have hD := (Corner.not_isSliver_iff hear.clockwise.le).mp hsliver
    exact .inr ((h.isFree_iff hc hD).mpr hear.vacant)

theorem isVacant_of_isEar (h : Clippable ring)
    (hslivers : Polyline.SliversVacant (ring.map Vertex.point)) (hc : c ∈ Vertex.corners ring)
    (hear : c.isEar ring = true) (hD : doubleArea c.before.point c.tip.point c.after.point < 0) :
    IsVacant (ring.map Vertex.point) c.before.point c.tip.point c.after.point := by
  by_cases hsliver : c.isSliver = true
  · obtain ⟨hb, ht, ha⟩ := (h.cutsOff hc).mem
    rw [Corner.isSliver, isSliver_iff, abs_of_neg hD] at hsliver
    exact hslivers _ (List.mem_map_of_mem hb) _ (List.mem_map_of_mem ht) _
      (List.mem_map_of_mem ha) (by linarith) hD
  · rw [Corner.isEar_iff] at hear
    have hD := (Corner.not_isSliver_iff hD.le).mp hsliver
    exact (h.isFree_iff hc hD).mp (hear.2.resolve_left hsliver)

/-- **Clipping an ear** leaves a ring of the same kind. -/
theorem erase (h : Clippable ring)
    (hslivers : Polyline.SliversVacant (ring.map Vertex.point))
    (h4 : 4 ≤ ring.length) (hc : c ∈ Vertex.corners ring) (hear : c.isEar ring = true) :
    Clippable (ring.eraseP fun v ↦ v.index == c.tip.index) := by
  have hcut := h.cutsOff hc
  obtain ⟨others, hrot, hrot'⟩ := hcut.around
  have hothers : others.map Vertex.point ≠ [] := by
    have := hrot.perm.length_eq
    rw [ne_eq, List.map_eq_nil_iff, ← List.length_eq_zero_iff]
    simp only [List.length_cons] at this
    omega
  have hrot := hrot.map Vertex.point
  have hrot' := hrot'.map Vertex.point
  rw [List.map_cons, List.map_cons, List.map_cons] at hrot
  rw [List.map_cons, List.map_cons] at hrot'
  have hP := h.proper.of_isRotated hrot
  have hcw := h.clockwise.of_isRotated hrot
  obtain ⟨hP', hcw'⟩ : IsProper (c.before.point :: c.after.point :: others.map Vertex.point) ∧
      RunsClockwise (c.before.point :: c.after.point :: others.map Vertex.point) := by
    rcases (Corner.doubleArea_nonpos_of_isEar hear).eq_or_lt with hD | hD
    · exact ⟨hP.rest_of_flat hothers hD, RunsClockwise.rest_of_flat hP hcw hothers hD⟩
    · have hvac := (h.isVacant_of_isEar hslivers hc hear hD).of_isRotated hrot
      exact ⟨hP.rest_of_vacant hothers hD hvac, RunsClockwise.rest_of_vacant hP hcw hothers hD hvac⟩
  exact {
    nodup := h.nodup.sublist (hcut.sublist.map _)
    proper := hP'.of_isRotated hrot'.symm
    clockwise := hcw'.of_isRotated hrot'.symm }

/-- **The run.** A ring of this kind is clipped to the end. -/
theorem exists_clip_eq_ok {count : ℕ} (h : Clippable ring)
    (hslivers : Polyline.SliversVacant (ring.map Vertex.point)) (hlen : ring.length = count + 2) :
    ∃ ears, clip count ring = .ok ears := by
  induction count generalizing ring with
  | zero => exact ⟨[], rfl⟩
  | succ count ih =>
    rw [clip]
    split
    next hnone =>
      obtain ⟨c, hc, hear⟩ := h.exists_isEar
      exact absurd hear (List.find?_eq_none.mp hnone c hc)
    next c hsome =>
      have hc : c ∈ Vertex.corners ring := List.mem_of_find?_eq_some hsome
      have hcut := h.cutsOff hc
      have hrest := hcut.length_eq
      obtain ⟨ears, hears⟩ : ∃ ears,
          clip count (ring.eraseP fun v ↦ v.index == c.tip.index) = .ok ears := by
        cases count with
        | zero => exact ⟨[], rfl⟩
        | succ count =>
          refine ih (h.erase hslivers (by omega) hc (List.find?_some hsome)) ?_ (by omega)
          exact hslivers.of_subset (hcut.sublist.map _).subset
      exact ⟨c :: ears, by rw [hears]; rfl⟩

end Clippable

/-! ## The direction at the leftmost vertex -/

private theorem leftmost_of_precedes {P : Corner K → Prop} (first : Corner K)
    (others : List (Corner K)) (hex : ∃ c ∈ first :: others, P c)
    (hlow : ∀ c ∈ first :: others, ∀ d ∈ first :: others,
      P c → ¬P d → c.precedes d = true ∧ ¬d.precedes c = true) :
    P (Corner.leftmost first others) ∧ Corner.leftmost first others ∈ first :: others := by
  induction others generalizing first with
  | nil =>
    obtain ⟨c, hc, hPc⟩ := hex
    rw [List.mem_singleton.mp hc] at hPc
    exact ⟨hPc, List.mem_cons_self⟩
  | cons d others ih =>
    -- the better of the first two stands for both
    have hstep : ∀ best, (best = first ∨ best = d) → (P first ∨ P d → P best) →
        P (Corner.leftmost best others) ∧
          Corner.leftmost best others ∈ first :: d :: others := by
      intro best hbest hP
      have hsub : ∀ c ∈ best :: others, c ∈ first :: d :: others := by
        intro c hc
        rcases List.mem_cons.mp hc with rfl | hc
        · rcases hbest with rfl | rfl <;> simp
        · exact List.mem_cons_of_mem _ (List.mem_cons_of_mem _ hc)
      have hex' : ∃ c ∈ best :: others, P c := by
        obtain ⟨c, hc, hPc⟩ := hex
        rcases List.mem_cons.mp hc with rfl | hc
        · exact ⟨best, List.mem_cons_self, hP (.inl hPc)⟩
        rcases List.mem_cons.mp hc with rfl | hc
        · exact ⟨best, List.mem_cons_self, hP (.inr hPc)⟩
        · exact ⟨c, List.mem_cons_of_mem _ hc, hPc⟩
      obtain ⟨hPl, hl⟩ := ih best hex' fun c hc e he ↦ hlow c (hsub c hc) e (hsub e he)
      exact ⟨hPl, hsub _ hl⟩
    have hfirst := hlow first (by simp) d (by simp)
    have hd := hlow d (by simp) first (by simp)
    rw [Corner.leftmost, List.foldl_cons]
    split
    next h => exact hstep d (.inr rfl) fun hP ↦ hP.elim (fun hf ↦ by tauto) id
    next h => exact hstep first (.inl rfl) fun hP ↦ hP.elim id fun hd ↦ by tauto

private theorem leftmost_mem (first : Corner K) (others : List (Corner K)) :
    Corner.leftmost first others ∈ first :: others :=
  (leftmost_of_precedes (P := fun _ ↦ True) first others ⟨first, List.mem_cons_self, trivial⟩
    fun _ _ _ _ _ hfalse ↦ absurd trivial hfalse).2

theorem ears_eq (h3 : 3 ≤ ring.length) : ∃ first others,
    Vertex.corners ring = first :: others ∧ ears ring =
      if (Corner.leftmost first others).isReflex then .error .notClockwise
      else clip (ring.length - 2) ring := by
  have hlen := Vertex.length_corners ring
  rw [ears]
  generalize Vertex.corners ring = corners at hlen ⊢
  rcases corners with _ | ⟨first, _ | ⟨second, _ | ⟨third, others⟩⟩⟩
  case cons.cons.cons => exact ⟨first, second :: third :: others, rfl, rfl⟩
  all_goals
    simp only [List.length_cons, List.length_nil] at hlen
    omega

/-- Where no corner is reflex it does not matter which one is looked at. -/
theorem ears_eq_clip (h3 : 3 ≤ ring.length)
    (hturns : ∀ c ∈ Vertex.corners ring, ¬c.isReflex = true) :
    ears ring = clip (ring.length - 2) ring := by
  obtain ⟨first, others, hcorners, hears⟩ := ears_eq h3
  rw [hears, if_neg (hturns _ (hcorners ▸ leftmost_mem first others))]

variable [IsStrictOrderedRing K]

theorem Corner.precedes_iff {c d : Corner K} : c.precedes d = true ↔
    c.tip.point.x < d.tip.point.x ∨
      |c.tip.point.x - d.tip.point.x| < Scalar.areaEpsilon ∧ c.tip.point.y < d.tip.point.y := by
  rw [Corner.precedes, Bool.or_eq_true, Bool.and_eq_true, decide_eq_true_iff, decide_eq_true_iff,
    Scalar.close_iff]

/-- The leftmost vertex precedes the others within the tolerance as well. -/
private theorem precedes_of_leftmostClear {points : List (Point2 K)}
    (hclear : Polyline.LeftmostClear points) {c d : Corner K} (hc : c.tip.point ∈ points)
    (hlow : ∀ u ∈ points, u = c.tip.point ∨ Precedes c.tip.point u) (hd : d.tip.point ∈ points)
    (hne : d.tip.point ≠ c.tip.point) : c.precedes d = true ∧ ¬d.precedes c = true := by
  have hclear := hclear _ hc hlow _ hd
  rw [Corner.precedes_iff, Corner.precedes_iff]
  rcases (hlow _ hd).resolve_left hne with hx | ⟨hx, hy⟩
  · refine ⟨.inl hx, ?_⟩
    rintro (h | ⟨h, hy⟩)
    · exact h.not_gt hx
    · have hright := (abs_lt.mp h).2
      exact (hclear hx (by linarith)).not_gt hy
  · refine ⟨.inr ⟨?_, hy⟩, ?_⟩
    · rw [hx, sub_self, abs_zero]
      exact Scalar.areaEpsilon_pos
    · rintro (h | ⟨-, h⟩)
      · exact h.ne hx.symm
      · exact h.not_gt hy

/-- **The clipper looks at the leftmost vertex**, if no lower one is nearly as far left, and
there a clockwise loop turns clockwise. -/
theorem Clippable.ears_eq_clip (h : Clippable ring)
    (hclear : Polyline.LeftmostClear (ring.map Vertex.point)) :
    ears ring = clip (ring.length - 2) ring := by
  have h3 := h.three_le
  have hmem : ∀ c ∈ Vertex.corners ring, c.tip.point ∈ ring.map Vertex.point := fun c hc ↦
    List.mem_map_of_mem (h.cutsOff hc).mem.2.1
  obtain ⟨v, hv, hlow⟩ := Polyline.exists_leftmost (l := ring.map Vertex.point) (by
    intro hnil
    rw [List.map_eq_nil_iff.mp hnil] at h3
    simp at h3)
  obtain ⟨w, hw, rfl⟩ := List.mem_map.mp hv
  obtain ⟨best, hbest, rfl⟩ := exists_mem_corners_tip hw
  obtain ⟨first, others, hcorners, hears⟩ := ears_eq h3
  obtain ⟨hchosen, hin⟩ := leftmost_of_precedes (P := fun c ↦ c.tip.point = best.tip.point)
    first others ⟨best, hcorners ▸ hbest, rfl⟩ <| by
      rw [← hcorners]
      intro c hc d hd hcv hdv
      rw [← hcv] at hlow hdv
      exact precedes_of_leftmostClear hclear (hmem c hc) hlow (hmem d hd) hdv
  rw [← hcorners] at hin
  rw [hears, if_neg]
  rw [Corner.isReflex_iff, not_lt]
  refine (h.clockwise.turn_leftmost h.proper (h.cutsOff hin).isCorner ?_).le
  rwa [hchosen]

/-! ## Whole loops -/

private theorem clippable_numbered (h : IsSimple loop)
    (harea : Polyline.signedArea loop < 0) :
    Clippable (Vertex.numbered loop) := by
  have harea := Polyline.signedArea_neg_iff.mp harea
  have hP := h.isProper harea.ne
  refine ⟨Vertex.nodup_map_index_numbered loop, ?_, ?_⟩
  · rwa [Vertex.map_point_numbered]
  · rw [Vertex.map_point_numbered]
    exact hP.runsClockwise harea

/-- **Simple clockwise loops are triangulated**, with two exceptions. The direction is found
wrong only if a vertex lower than the leftmost one is less than the tolerance to the right of
it, and the clipper runs out of ears only if three vertices form a sliver that holds a fourth. -/
theorem ofLoop_of_isSimple (h : IsSimple loop)
    (harea : Polyline.signedArea loop < 0) :
    (∃ t, Triangulation.ofLoop loop = .ok t ∧ t.Fills loop.length) ∨
      (Triangulation.ofLoop loop = .error .notClockwise ∧ ¬Polyline.LeftmostClear loop) ∨
      ((∃ left, Triangulation.ofLoop loop = .error (.noEar left)) ∧
        ¬Polyline.SliversVacant loop) := by
  have hring := clippable_numbered h harea
  have hlen := hring.three_le
  obtain ⟨first, others, -, hears⟩ := ears_eq hlen
  by_cases hreflex : (Corner.leftmost first others).isReflex = true
  · rw [if_pos hreflex] at hears
    refine .inr (.inl ⟨ofLoop_eq_error hears, fun hclear ↦ ?_⟩)
    rw [hring.ears_eq_clip (by rwa [Vertex.map_point_numbered])] at hears
    obtain ⟨left, hleft⟩ := exists_noEar_of_clip hears
    cases hleft
  · rw [if_neg hreflex] at hears
    cases hclip : clip ((Vertex.numbered loop).length - 2) (Vertex.numbered loop) with
    | ok found =>
      have hloop : Triangulation.ofLoop loop = .ok (ofEars found) := by
        rw [Triangulation.ofLoop, hears, hclip]
        rfl
      exact .inl ⟨_, hloop, fills_of_ofLoop hloop⟩
    | error fault =>
      obtain ⟨left, rfl⟩ := exists_noEar_of_clip hclip
      refine .inr (.inr ⟨⟨left, ofLoop_eq_error (hears.trans hclip)⟩, fun hslivers ↦ ?_⟩)
      have hcount : (Vertex.numbered loop).length = (Vertex.numbered loop).length - 2 + 2 := by
        omega
      obtain ⟨found, hfound⟩ :=
        hring.exists_clip_eq_ok (by rwa [Vertex.map_point_numbered]) hcount
      rw [hfound] at hclip
      cases hclip

theorem ofLoop_of_isSimple_notched :
    ∃ t, Triangulation.ofLoop notched = .ok t ∧ t.Fills 6 := by
  have h : Triangulation.ofLoop notched = .ok notchedTriangles :=
    Outcome.eq_ok_of_toOption (by decide +kernel)
  have hsimple : Polyline.IsSimple notched :=
    .of_mul_pos (by decide) (by decide +kernel) (by decide +kernel)
  have harea : Polyline.signedArea notched < 0 := by decide +kernel
  rcases ofLoop_of_isSimple hsimple harea with ht | ⟨he, -⟩ | ⟨⟨left, he⟩, -⟩
  · exact ht
  · rw [h] at he
    cases he
  · rw [h] at he
    cases he

/-- A loop whose leftmost vertex is missed. -/
def hidden : List (Point2 ℚ) :=
  [⟨0, 10⟩, ⟨10, 10⟩, ⟨10, 0⟩, ⟨1 / 100000, 0⟩, ⟨9 / 1000000, 5⟩]

/-- A loop of which a sliver is clipped that holds a vertex. -/
def pinched : List (Point2 ℚ) :=
  [⟨0, 1 / 500⟩, ⟨1 / 1000, -1 / 1000⟩, ⟨0, 0⟩, ⟨-1 / 1000, -1 / 1000⟩]

/-- Both exceptions occur. -/
theorem exists_isSimple_error :
    (Polyline.IsSimple hidden ∧ Polyline.signedArea hidden < 0 ∧
      Triangulation.ofLoop hidden = .error .notClockwise) ∧
    Polyline.IsSimple pinched ∧ Polyline.signedArea pinched < 0 ∧
      Triangulation.ofLoop pinched = .error (.noEar 3) := by
  have hhidden : (match Triangulation.ofLoop hidden with
      | .error .notClockwise => true
      | _ => false) = true := by decide +kernel
  have hpinched : (match Triangulation.ofLoop pinched with
      | .error (.noEar 3) => true
      | _ => false) = true := by decide +kernel
  refine ⟨⟨.of_mul_pos (by decide) (by decide +kernel) (by decide +kernel), by decide +kernel, ?_⟩,
    .of_mul_pos (by decide) (by decide +kernel) (by decide +kernel), by decide +kernel, ?_⟩
  · split at hhidden
    next h => exact h
    next => cases hhidden
  · split at hpinched
    next h => exact h
    next => cases hpinched

end EarClipping

end SolidModel
