import Mathlib
import SolidModel.Proofs.Curve.Samples
import SolidModel.Proofs.Loop.Series
import SolidModel.Proofs.Profile.Generators
import SolidModel.Proofs.Profile.StarArms
import SolidModel.Proofs.Space.Frames

/-!
# Stars with smooth arms

A star with smooth arms is drawn as a closed chain. Its first curve starts with a makeshift handle,
curves are added with handles of two lengths in turn, a last one is led back to the first knot, and
only then is the first handle put right. Still the curves of the chain are the arms in order: up to
the last step, `begun` tells how far the drawing has got, and the first handle is all that it lacks.

A star can be drawn if its handles are long enough and its knots are not too near to one another,
see `points_eq_ok_iff`, which also tells the points. Their symmetry is that of the arms.
-/

namespace SolidModel

open Outcome VectorOps

namespace Profile.BezierStar

variable {s : BezierStar ℝ} {points : List (Point2 ℝ)}

/-! ## The knots and the control points -/

theorem starPoints_eq_knots (s : BezierStar ℝ) :
    starPoints s.count s.outerRadius s.innerRadius
      = .ok ((List.range s.knotCount).map s.knotAt) := by
  have hpair (i : ℕ) : [rayPoint s.count s.outerRadius (i : ℝ),
        rayPoint s.count s.innerRadius ((i : ℝ) + 1 / 2)]
      = (List.range 2).map fun j ↦ s.knotAt (2 * i + j) := by
    have houter : s.knotAt (2 * i + 0) = rayPoint s.count s.outerRadius (i : ℝ) := by
      rw [knotAt_eq, radiusAt, if_pos (by omega), rayPoint, Scalar.fullTurn_eq]
      push_cast
      ring_nf
    have hinner : s.knotAt (2 * i + 1) = rayPoint s.count s.innerRadius ((i : ℝ) + 1 / 2) := by
      rw [knotAt_eq, radiusAt, if_neg (by omega), rayPoint, Scalar.fullTurn_eq]
      push_cast
      ring_nf
    rw [← houter, ← hinner]
    rfl
  have hknot (m : ℕ) : s.knotAt (2 * (m / 2) + m % 2) = s.knotAt m := by rw [Nat.div_add_mod]
  rw [starPoints_eq_ok]
  simp only [hpair, Polyline.flatMap_range_map_range fun i j ↦ s.knotAt (2 * i + j), hknot]
  rw [knotCount, Nat.mul_comm]

theorem controls_eq_ok_iff (h : 1 ≤ s.count) {controls : List (Point2 ℝ)} :
    s.controls ((List.range s.knotCount).map s.knotAt) = .ok controls ↔
      (∀ i ∈ List.range s.knotCount, ¬length (s.chordAt i) < Scalar.epsilon) ∧
        (List.range s.knotCount).map s.controlAt = controls := by
  have hperiodic := (symmetric_knotAt h).periodic
  have haround : (((List.range s.knotCount).map s.knotAt).zip
        ((((List.range s.knotCount).map s.knotAt).rotateLeft 1).zip
          (((List.range s.knotCount).map s.knotAt).rotateLeft 2))).zipIdx
      = (List.range s.knotCount).map fun i ↦
        ((s.knotAt i, s.knotAt (i + 1), s.knotAt (i + 2)), i) := by
    rw [Polyline.rotateLeft_map_range hperiodic, Polyline.rotateLeft_map_range hperiodic,
      List.zip_map', List.zip_map', List.zipIdx_eq_zip_range', List.length_map, List.length_range,
      ← List.range_eq_range']
    nth_rewrite 2 [← List.map_id (List.range s.knotCount)]
    rw [List.zip_map']
    rfl
  have hcontrol (i : ℕ) (p : Point2 ℝ) : (do
      return s.knotAt (i + 1) - (← normalized (s.chordAt i)) * s.handleAt (i + 1)) = .ok p ↔
        ¬length (s.chordAt i) < Scalar.epsilon ∧ s.controlAt i = p := by
    rw [normalized_bind_eq_ok_iff, pure_eq_ok_iff]
    rfl
  rw [BezierStar.controls, haround, List.mapM_map]
  exact mapM_eq_ok_iff hcontrol

/-! ## Drawing the arms -/

/-- The curve arrives at the knot after the given one, and does so like the arm that leads there. -/
structure Reaches (s : BezierStar ℝ) (b : CubicBezier (Point2 ℝ)) (i : ℕ) : Prop where
  control2 : b.control2 = s.controlAt i
  finish : b.finish = s.knotAt (i + 1)

theorem Reaches.handle_eq_ok_iff (h : 1 ≤ s.count) {b : CubicBezier (Point2 ℝ)} {i : ℕ}
    (hb : s.Reaches b i) {control1 : Point2 ℝ} :
    Chain.handle b (s.handleAt (i + 1)) = .ok control1 ↔
      ¬length (s.approachAt i) < Scalar.epsilon ∧ s.departureAt (i + 1) = control1 := by
  have hone : 1 ≤ s.knotCount := by
    rw [knotCount]
    omega
  have hround : i + 1 + (s.knotCount - 1) = i + s.knotCount := by omega
  rw [Chain.handle_eq_ok_iff_onward, CubicBezier.Stalls, CubicBezier.onward, hb.control2, hb.finish,
    departureAt, hround, (symmetric_approachAt h).periodic, approachAt]

/-- The chain when so many arms have been added to the first. The first handle is makeshift. -/
noncomputable def begun (s : BezierStar ℝ) (k : ℕ) : Chain (Point2 ℝ) :=
  ⟨⟨s.knotAt 0, s.controlAt 0, s.controlAt 0, s.knotAt 1, s.segments⟩,
    (List.range k).map fun i ↦ s.armAt (i + 1), false⟩

private theorem reaches_last_begun (s : BezierStar ℝ) (k : ℕ) : s.Reaches (s.begun k).last k := by
  cases k with
  | zero => exact ⟨rfl, rfl⟩
  | succ k =>
    have hlast : (s.begun (k + 1)).last = s.armAt (k + 1) := by
      rw [begun, Chain.last, List.range_succ, List.map_append, List.map_singleton,
        List.getLast?_concat, Option.getD_some]
    rw [hlast]
    exact ⟨rfl, rfl⟩

private theorem start_eq_ok_iff_begun {c : Chain (Point2 ℝ)} :
    Chain.start ⟨s.knotAt 0, s.controlAt 0, s.controlAt 0, s.knotAt 1, s.segments⟩
        = (.ok c : Except (Fault ℝ) _) ↔ 1 ≤ s.segments ∧ s.begun 0 = c :=
  Chain.start_eq_ok_iff

private theorem extended_begun_eq_ok_iff (h : 1 ≤ s.count) (hsegments : 1 ≤ s.segments) {k : ℕ}
    {longer : Chain (Point2 ℝ)} :
    (s.begun k).extended (s.handleAt (k + 1)) (s.controlAt (k + 1)) (s.knotAt (k + 2)) s.segments
        = .ok longer ↔
      ¬length (s.approachAt k) < Scalar.epsilon ∧ s.begun (k + 1) = longer := by
  have hreaches := s.reaches_last_begun k
  have hgrown : (s.begun k).grown ⟨(s.begun k).last.finish, s.departureAt (k + 1),
      s.controlAt (k + 1), s.knotAt (k + 2), s.segments⟩ = s.begun (k + 1) := by
    rw [hreaches.finish, begun, Chain.grown, begun, List.range_succ, List.map_append,
      List.map_singleton]
    rfl
  simp only [Chain.extended_eq_ok_iff, hreaches.handle_eq_ok_iff h]
  constructor
  · rintro ⟨-, control1, ⟨happroach, rfl⟩, rfl⟩
    exact ⟨happroach, hgrown.symm⟩
  · rintro ⟨happroach, rfl⟩
    exact ⟨hsegments, _, ⟨happroach, rfl⟩, hgrown⟩

private theorem grow_cons_eq_ok_iff {c d : Chain (Point2 ℝ)} (hopen : c.closed = false) {knot : ℕ}
    {control target : Point2 ℝ} {rest : List (Point2 ℝ × Point2 ℝ)} :
    s.grow c knot ((control, target) :: rest) = .ok d ↔
      ∃ longer, c.extended (s.handleAt knot) control target s.segments = .ok longer ∧
        s.grow longer (knot + 1) rest = .ok d := by
  rw [grow]
  simp only [← Chain.add_eq_done_iff hopen]
  exact Transition.settled_eq_ok_iff (f := fun longer ↦ s.grow longer (knot + 1) rest)

private theorem grow_begun_eq_ok_iff (h : 1 ≤ s.count) (hsegments : 1 ≤ s.segments) (m k : ℕ)
    {c : Chain (Point2 ℝ)} :
    s.grow (s.begun k) (k + 1)
        ((List.range' (k + 1) m).map fun i ↦ (s.controlAt i, s.knotAt (i + 1))) = .ok c ↔
      (∀ i ∈ List.range' k m, ¬length (s.approachAt i) < Scalar.epsilon) ∧ s.begun (k + m) = c := by
  induction m generalizing k with
  | zero => simp [grow]
  | succ m ih =>
    rw [List.range'_succ, List.map_cons, grow_cons_eq_ok_iff rfl, List.range'_succ,
      List.forall_mem_cons, Nat.add_comm m 1, ← Nat.add_assoc]
    simp only [extended_begun_eq_ok_iff h hsegments]
    constructor
    · rintro ⟨_, ⟨happroach, rfl⟩, hgrow⟩
      obtain ⟨hrest, hc⟩ := (ih (k + 1)).mp hgrow
      exact ⟨⟨happroach, hrest⟩, hc⟩
    · rintro ⟨⟨happroach, hrest⟩, hc⟩
      exact ⟨_, ⟨happroach, rfl⟩, (ih (k + 1)).mpr ⟨hrest, hc⟩⟩

/-- The whole chain. -/
noncomputable def drawn (s : BezierStar ℝ) : Chain (Point2 ℝ) :=
  ⟨s.armAt 0, (List.range (s.knotCount - 1)).map fun i ↦ s.armAt (i + 1), true⟩

private theorem curves_drawn (h : 1 ≤ s.count) :
    s.drawn.curves = (List.range s.knotCount).map s.armAt := by
  have hcount : s.knotCount = s.knotCount - 1 + 1 := by
    rw [knotCount]
    omega
  rw [hcount, List.range_succ_eq_map, List.map_cons, List.map_map]
  rfl

/-- What closes the chain is one more arm, and the first handle goes on from its end. -/
private theorem close_begun_eq_done_iff (h : 1 ≤ s.count) (hsegments : 1 ≤ s.segments) {k : ℕ}
    (hk : k + 2 = s.knotCount) {c : Chain (Point2 ℝ)} :
    (s.begun k).close s.innerHandle (s.controlAt (k + 1)) s.outerHandle s.segments = .done c ↔
      (∀ i ∈ List.range' k 2, ¬length (s.approachAt i) < Scalar.epsilon) ∧ s.drawn = c := by
  have hinner : s.innerHandle = s.handleAt (k + 1) := by
    rw [knotCount] at hk
    rw [handleAt, if_neg (by omega)]
  have houter : s.outerHandle = s.handleAt (k + 1 + 1) := by
    rw [knotCount] at hk
    rw [handleAt, if_pos (by omega)]
  have hstart : (s.begun k).first.start = s.knotAt (k + 2) := by
    rw [hk, ← Nat.zero_add s.knotCount, (symmetric_knotAt h).periodic]
    rfl
  have hfirst : s.departureAt (k + 1 + 1) = s.departureAt 0 := by
    rw [← (symmetric_departureAt h).periodic 0, Nat.zero_add, ← hk]
  have hlooped : (s.begun (k + 1)).looped (s.departureAt 0) = s.drawn := by
    rw [drawn, ← hk]
    rfl
  rw [Chain.close_eq_done_iff rfl, hinner, houter, hstart]
  simp only [extended_begun_eq_ok_iff h hsegments]
  rw [List.range'_succ, List.forall_mem_cons, List.range'_one, List.forall_mem_singleton]
  constructor
  · rintro ⟨_, ⟨happroach, rfl⟩, control1, hhandle, rfl⟩
    obtain ⟨hlast, rfl⟩ := ((s.reaches_last_begun (k + 1)).handle_eq_ok_iff h).mp hhandle
    exact ⟨⟨happroach, hlast⟩, by rw [hfirst, hlooped]⟩
  · rintro ⟨⟨happroach, hlast⟩, rfl⟩
    have hhandle := ((s.reaches_last_begun (k + 1)).handle_eq_ok_iff h).mpr ⟨hlast, rfl⟩
    exact ⟨_, ⟨happroach, rfl⟩, _, hhandle, by rw [hfirst, hlooped]⟩

private theorem points_drawn (h : 1 ≤ s.count) (hsegments : 1 ≤ s.segments) :
    s.drawn.points = .ok ((List.range s.knotCount).flatMap fun i ↦ (s.armAt i).samples) := by
  have harms : ∀ b ∈ s.drawn.curves, 1 ≤ b.segments := by
    rw [curves_drawn h]
    exact List.forall_mem_map.mpr fun _ _ ↦ hsegments
  rw [Chain.points_eq_ok harms, curves_drawn h, List.flatMap_map, drawn, if_pos rfl,
    List.append_nil]

/-! ## Which stars can be drawn -/

/-- What a star has to be so that it can be drawn: its handles are long enough to show a direction,
and no knot is too near to the next but one. -/
structure Fits (s : BezierStar ℝ) : Prop where
  two_le_count : 2 ≤ s.count
  one_le_segments : 1 ≤ s.segments
  handles : ∀ i, Scalar.epsilon ≤ |s.handleAt i|
  chords : ∀ i, Scalar.epsilon ≤ 2 * |s.radiusAt i| * Trig.sin (180 / (s.count : ℝ))

theorem fits_iff :
    s.Fits ↔ 2 ≤ s.count ∧
      (∀ i ∈ List.range s.knotCount, ¬length (s.chordAt i) < Scalar.epsilon) ∧ 1 ≤ s.segments ∧
        ∀ i ∈ List.range s.knotCount, ¬length (s.approachAt i) < Scalar.epsilon := by
  constructor
  · intro h
    have hchord (i : ℕ) : Scalar.epsilon ≤ length (s.chordAt i) := by
      rw [length_chordAt h.two_le_count]
      exact h.chords i
    refine ⟨h.two_le_count, fun i _ ↦ not_lt.mpr (hchord i), h.one_le_segments, fun i _ ↦ ?_⟩
    rw [length_approachAt (Scalar.epsilon_pos.trans_le (hchord i)), not_lt]
    exact h.handles (i + 1)
  · rintro ⟨hcount, hchords, hsegments, happroaches⟩
    have hmem (i : ℕ) : i % 2 ∈ List.range s.knotCount := by
      rw [List.mem_range, knotCount]
      omega
    have hchord (i : ℕ) := not_lt.mp (hchords _ (hmem i))
    refine ⟨hcount, hsegments, fun i ↦ ?_, fun i ↦ ?_⟩
    · have happroach := happroaches _ (hmem (i + 1))
      have hnext : s.handleAt ((i + 1) % 2 + 1) = s.handleAt i := handleAt_congr (by omega)
      rwa [length_approachAt (Scalar.epsilon_pos.trans_le (hchord (i + 1))), hnext, not_lt]
        at happroach
    · have hlength := hchord i
      rwa [length_chordAt hcount, radiusAt_congr (Nat.mod_mod i 2)] at hlength

section

variable {n : ℕ} (hn : n + 2 = s.knotCount)

include hn

private theorem knots_eq_cons : (List.range s.knotCount).map s.knotAt
    = s.knotAt 0 :: s.knotAt 1 :: (List.range' 2 n).map s.knotAt := by
  rw [← hn, List.range_eq_range']
  rfl

private theorem controls_eq_cons : (List.range s.knotCount).map s.controlAt
    = s.controlAt 0 :: ((List.range' 1 n).map s.controlAt ++ [s.controlAt (n + 1)]) := by
  rw [← hn, List.range_eq_range', List.range'_succ, List.range'_1_concat, List.map_cons,
    List.map_append, List.map_singleton, Nat.add_comm 1 n, Nat.zero_add]

private theorem forall_mem_range_knotCount {Q : ℕ → Prop} : (∀ i ∈ List.range s.knotCount, Q i) ↔
    (∀ i ∈ List.range' 0 n, Q i) ∧ ∀ i ∈ List.range' n 2, Q i := by
  rw [← hn, List.range_eq_range', ← List.range'_append_1, List.forall_mem_append, Nat.zero_add]

end

/-- The curves that are added lead to all knots but the first two; the last control point is left
for the curve that closes the chain. -/
private theorem zip_controls_knots (s : BezierStar ℝ) (n : ℕ) :
    ((List.range' 1 n).map s.controlAt ++ [s.controlAt (n + 1)]).zip
        ((List.range' 2 n).map s.knotAt)
      = (List.range' 1 n).map fun i ↦ (s.controlAt i, s.knotAt (i + 1)) := by
  have hshift : List.range' 2 n = (List.range' 1 n).map (1 + ·) :=
    (List.map_add_range' 1 n 1).symm
  rw [← List.append_nil ((List.range' 2 n).map s.knotAt), List.zip_append (by simp),
    List.zip_nil_right, List.append_nil, hshift, List.map_map, List.zip_map']
  simp only [Function.comp_apply, Nat.add_comm 1]

/-- **Which stars can be drawn, and what is then drawn.** -/
theorem points_eq_ok_iff :
    s.points = .ok points ↔
      s.Fits ∧ (List.range s.knotCount).flatMap (fun i ↦ (s.armAt i).samples) = points := by
  -- Each step of the drawing succeeds under a condition of its own; together these are `fits_iff`.
  rw [fits_iff, BezierStar.points, and_assoc]
  simp only [guard_eq_ok_iff, not_lt (a := s.count)]
  refine and_congr_right fun hcount ↦ ?_
  have hone : 1 ≤ s.count := by omega
  obtain ⟨n, hn⟩ : ∃ n, n + 2 = s.knotCount := ⟨s.knotCount - 2, by rw [knotCount]; omega⟩
  simp only [bind_eq_ok_iff, starPoints_eq_knots, Except.ok.injEq, exists_eq_left',
    controls_eq_ok_iff hone, and_assoc, exists_and_left]
  refine and_congr_right fun _ ↦ ?_
  rw [knots_eq_cons hn, controls_eq_cons hn]
  simp only [bind_eq_ok_iff, start_eq_ok_iff_begun, and_assoc, exists_and_left, exists_eq_left',
    zip_controls_knots, List.getLastD_concat]
  refine and_congr_right fun hsegments ↦ ?_
  simp only [grow_begun_eq_ok_iff hone hsegments n 0, forall_mem_range_knotCount hn, and_assoc,
    exists_and_left, exists_eq_left', Nat.zero_add]
  refine and_congr_right fun _ ↦ Transition.settled_eq_ok_iff.trans ?_
  simp only [close_begun_eq_done_iff hone hsegments hn, and_assoc, exists_and_left,
    exists_eq_left', points_drawn hone hsegments, Except.ok.injEq]

/-! ## The points in order -/

/-- The points, counted on around the star. -/
noncomputable def pointAt (s : BezierStar ℝ) (m : ℕ) : Point2 ℝ :=
  (s.armAt (m / s.segments.toNat)).pointAt (((m % s.segments.toNat : ℕ) : ℝ) / s.segments)

private theorem flatMap_samples_eq (s : BezierStar ℝ) :
    ((List.range s.knotCount).flatMap fun i ↦ (s.armAt i).samples)
      = (List.range (s.knotCount * s.segments.toNat)).map s.pointAt :=
  Polyline.flatMap_range_map_range
    (fun i j : ℕ ↦ (s.armAt i).pointAt ((j : ℝ) / s.segments)) s.knotCount s.segments.toNat

theorem pointAt_mul (hsegments : 1 ≤ s.segments) (i : ℕ) :
    s.pointAt (i * s.segments.toNat) = s.knotAt i := by
  rw [pointAt, Nat.mul_div_cancel _ (by omega), Nat.mul_mod_left, Nat.cast_zero, zero_div,
    CubicBezier.pointAt_zero]
  rfl

theorem pointAt_add (h : 1 ≤ s.count) (hsegments : 1 ≤ s.segments) (m : ℕ) :
    s.pointAt (m + 2 * s.segments.toNat) = (s.pointAt m).turned s.turn := by
  rw [pointAt, Nat.add_mul_div_right _ _ (by omega), Nat.add_mul_mod_self_right, armAt_add_two h,
    CubicBezier.pointAt_turned]
  rfl

theorem periodic_pointAt (h : 1 ≤ s.count) (hsegments : 1 ≤ s.segments) :
    Function.Periodic s.pointAt (s.knotCount * s.segments.toNat) := by
  intro m
  rw [pointAt, Nat.add_mul_div_right _ _ (by omega), Nat.add_mul_mod_self_right,
    armAt_add_knotCount h]
  rfl

/-- The points of a star: as many for each arm as it has segments, and the first of them is the
knot, outer and inner ones in turn and at equal angles. Turned by the angle between two rays they
are the same points, each two arms further on. -/
structure IsDrawnBy (s : BezierStar ℝ) (points : List (Point2 ℝ)) : Prop where
  length_eq : (points.length : ℤ) = 2 * s.count * s.segments
  knot : ∀ i : ℕ, (i : ℤ) < 2 * s.count →
    points[i * s.segments.toNat]? = some (Angle.unit (-180 * (i : ℝ) / s.count)
      * if i % 2 = 0 then s.outerRadius else s.innerRadius)
  turned : ∀ m p, points[m]? = some p →
    ∃ q, p.rotated (-360 / (s.count : ℝ)) = .ok q ∧
      points[(m + 2 * s.segments.toNat) % points.length]? = some q

/-- **A star is symmetric.** Whichever star can be drawn, its arms look alike, also where the chain
has been begun and closed. -/
theorem isDrawnBy_of_points (h : s.points = .ok points) : IsDrawnBy s points := by
  obtain ⟨hfits, hpoints⟩ := points_eq_ok_iff.mp h
  have hcount : 1 ≤ s.count := by
    have := hfits.two_le_count
    omega
  have hsegments := hfits.one_le_segments
  rw [flatMap_samples_eq] at hpoints
  have hlength : points.length = s.knotCount * s.segments.toNat := by
    rw [← hpoints, List.length_map, List.length_range]
  have hget {m : ℕ} (hm : m < s.knotCount * s.segments.toNat) :
      points[m]? = some (s.pointAt m) := by
    rw [← hpoints, List.getElem?_map, List.getElem?_range hm, Option.map_some]
  constructor
  · rw [hlength, knotCount]
    push_cast
    rw [Int.toNat_of_nonneg (by omega), Int.toNat_of_nonneg (by omega)]
  · intro i hi
    have hi : i < s.knotCount := by
      rw [knotCount]
      omega
    rw [hget (Nat.mul_lt_mul_of_pos_right hi (by omega)), pointAt_mul hsegments, knotAt_eq]
    rfl
  · intro m p hp
    obtain ⟨hm, rfl⟩ : m < s.knotCount * s.segments.toNat ∧ p = s.pointAt m := by
      have hm : m < s.knotCount * s.segments.toNat :=
        hlength ▸ (List.getElem?_eq_some_iff.mp hp).1
      exact ⟨hm, Option.some.inj (hp.symm.trans (hget hm))⟩
    refine ⟨_, Point2.rotated_eq_ok _ _, ?_⟩
    rw [hlength, hget (Nat.mod_lt _ (by omega)), (periodic_pointAt hcount hsegments).map_mod_nat,
      pointAt_add hcount hsegments, turn_eq]

/-- A star with six rays. -/
noncomputable def snowflake : BezierStar ℝ := ⟨6, 1.0, 0.5, 3.0, 0.25, 2⟩

private theorem fits_snowflake : snowflake.Fits := by
  have hsin : Trig.sin (180 / (snowflake.count : ℝ)) = 1 / 2 := by
    have hangle : (180 / ((6 : ℤ) : ℝ)) * (Real.pi / 180) = Real.pi / 6 := by
      push_cast
      ring
    change Real.sin ((180 / ((6 : ℤ) : ℝ)) * (Real.pi / 180)) = 1 / 2
    rw [hangle, Real.sin_pi_div_six]
  refine ⟨by decide, by decide, fun i ↦ ?_, fun i ↦ ?_⟩
  · rw [handleAt]
    split <;> norm_num [snowflake, Scalar.epsilon]
  · rw [hsin, radiusAt]
    split <;> norm_num [snowflake, Scalar.epsilon]

theorem isDrawnBy_of_points_snowflake :
    ∃ points, snowflake.points = .ok points ∧ IsDrawnBy snowflake points ∧ points.length = 24 := by
  have hpoints := points_eq_ok_iff.mpr ⟨fits_snowflake, rfl⟩
  have hdrawn := isDrawnBy_of_points hpoints
  refine ⟨_, hpoints, hdrawn, ?_⟩
  have h24 : 2 * snowflake.count * snowflake.segments = 24 := rfl
  exact_mod_cast hdrawn.length_eq.trans h24

end Profile.BezierStar

end SolidModel
