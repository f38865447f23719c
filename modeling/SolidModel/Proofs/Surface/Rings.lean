import Mathlib
import SolidModel.Polyhedron.Sweep
import SolidModel.Proofs.Space.Frames
import SolidModel.Proofs.Surface.Sweep

/-!
# The rings of a sweep

Every ring of a sweep is the turned profile, carried to its point of the path by the frame of its
station. Turns and frames keep lengths, so a ring is the profile itself, moved and not bent. A frame
also keeps the direction in which the profile runs, as seen along the way: this is what the caps of
an open sweep rely on, whose normals are the first and the last step of the path.
-/

namespace SolidModel

open VectorOps (dot length)

namespace Polyhedron

open Outcome Point3

/-! ## Stations along a path -/

section Stations

variable {K : Type}

private theorem map_place_stations (path : List (Point3 K)) (closed : Bool) :
    (stations path closed).map Station.place = path := by
  rcases eq_or_ne path [] with rfl | hpath
  · cases closed <;> rfl
  · refine List.ext_getElem (by rw [List.length_map, length_stations closed hpath]) ?_
    intro k hk hk'
    simp [stations]

private theorem exists_stations_eq_cons (p q : Point3 K) (rest : List (Point3 K)) :
    ∃ others, stations (p :: q :: rest) false = ⟨p, p, q⟩ :: others := ⟨_, rfl⟩

private theorem exists_stations_eq_concat (l : List (Point3 K)) (p q : Point3 K) :
    ∃ others, stations (l ++ [p, q]) false = others ++ [⟨p, q, q⟩] := by
  have hbefore : (l ++ [p, q]).take 1 ++ (l ++ [p, q]).dropLast
      = ((l ++ [p, q]).take 1 ++ l) ++ [p] := by
    rw [List.dropLast_append_of_ne_nil (by simp), List.append_assoc]
    rfl
  have hafter : (l ++ [p, q]).tail ++ (l ++ [p, q]).getLast?.toList
      = (l ++ [p, q]).tail ++ [q] := by
    simp
  have hpath : l ++ [p, q] = (l ++ [p]) ++ [q] := by simp
  have hlength : ((l ++ [p, q]).take 1 ++ l).length
      = ((l ++ [p]).zip (l ++ [p, q]).tail).length := by
    simp only [List.length_append, List.length_take, List.length_cons, List.length_nil,
      List.length_zip, List.length_tail]
    omega
  rw [stations, if_neg Bool.false_ne_true, if_neg Bool.false_ne_true, hbefore, hafter]
  nth_rewrite 2 [hpath]
  rw [List.zip_append (by simp), List.zipWith_append hlength]
  exact ⟨_, rfl⟩

end Stations

variable {K : Type} [Field K] [LinearOrder K] [FloorRing K] [Trig K]
variable {profile : List (Point2 K)} {path : List (Point3 K)} {closed : Bool} {step degrees : K}

/-! ## One ring -/

theorem coincide_eq_false_of_placement {eye center : Point3 K} {m : Matrix4 K}
    (h : Matrix4.placement eye center = .ok m) : coincide eye center = false := by
  obtain ⟨f, hf, -⟩ := bind_eq_ok_iff.mp h
  exact decide_eq_false (Matrix4.not_short_of_forward hf)

theorem forall₂_ring_of_sweptRings {rings : List (List (Point3 K))}
    (h : sweptRings profile (stations path closed) step = .ok rings) :
    List.Forall₂ (fun s ring ↦ ∃ degrees, s.ring profile degrees = .ok ring)
      (stations path closed) rings := by
  rw [← List.zipIdx_map_fst 0 (stations path closed), List.forall₂_map_left_iff]
  exact (forall₂_of_mapM_eq_ok h).imp fun _ _ hring ↦ ⟨_, hring⟩

variable [IsStrictOrderedRing K] [Trig.HasHalfTurn K]

theorem coincide_eq_false_iff {p q : Point3 K} :
    coincide p q = false ↔ Scalar.epsilon * Scalar.epsilon ≤ dot (q - p) (q - p) := by
  rw [coincide, decide_eq_false_iff_not, not_lt, ← VectorOps.length_mul_length]
  exact mul_self_le_mul_self_iff Scalar.epsilon_pos.le VectorOps.length_nonneg

theorem exists_ring {s : Station K} (hs : coincide s.before s.after = false)
    (profile : List (Point2 K)) (degrees : K) :
    ∃ x y, IsFrame x y (s.after - s.before) ∧
      s.ring profile degrees = .ok (Polyline.carried
        (profile.map (·.turned (Angle.unit degrees))) x y s.place) := by
  obtain ⟨x, y, z, hplaced, hframe⟩ := Matrix4.exists_placement (of_decide_eq_false hs)
  refine ⟨x, y, hframe, ?_⟩
  rw [Station.ring, hplaced, Polyline.rotated_eq_ok]
  refine congrArg Except.ok (List.map_congr_left fun p _ ↦ ?_)
  rw [← Matrix4.applyDirection_ofColumns x y z s.before p]
  rfl

private theorem exists_frame_of_ring {s : Station K} {ring : List (Point3 K)}
    (h : s.ring profile degrees = .ok ring) :
    ∃ x y, IsFrame x y (s.after - s.before) ∧ ring = Polyline.carried
      (profile.map (·.turned (Angle.unit degrees))) x y s.place := by
  obtain ⟨m, hm, -⟩ := bind_eq_ok_iff.mp h
  obtain ⟨x, y, hframe, hring⟩ := exists_ring (coincide_eq_false_of_placement hm) profile degrees
  exact ⟨x, y, hframe, Except.ok.inj (h.symm.trans hring)⟩

/-- The points of a ring are those of a profile, in order, moved to a place: they are as far from
each other, and as far from the place as those of the profile are from the origin. -/
def IsRigidCopy (profile : List (Point2 K)) (place : Point3 K) (ring : List (Point3 K)) : Prop :=
  ∃ f : Point2 K → Point3 K, ring = profile.map f ∧ (∀ p, length (f p - place) = length p) ∧
    ∀ p q, length (f p - f q) = length (p - q)

private theorem isRigidCopy_of_ring {s : Station K} {ring : List (Point3 K)}
    (h : s.ring profile degrees = .ok ring) : IsRigidCopy profile s.place ring := by
  obtain ⟨x, y, hframe, rfl⟩ := exists_frame_of_ring h
  have hlength (p : Point2 K) : length (x * (p.turned (Angle.unit degrees)).x
      + y * (p.turned (Angle.unit degrees)).y) = length p := by
    rw [hframe.length_carry, Point2.length_turned]
  refine ⟨fun p ↦ x * (p.turned (Angle.unit degrees)).x + y * (p.turned (Angle.unit degrees)).y
    + s.place, ?_, fun p ↦ ?_, fun p q ↦ ?_⟩
  · rw [Polyline.carried, List.map_map]
    rfl
  · rw [add_sub_cancel_right, hlength]
  · rw [add_sub_add_right_eq_sub, carry_sub_carry, ← Point2.turned_sub, hlength]

/-- Laid down by the direction of its frame, a ring runs the way the profile does. -/
theorem sign_signedArea_of_ring {s : Station K} {ring : List (Point3 K)}
    (h : s.ring profile degrees = .ok ring) :
    SignType.sign (Polyline.signedArea (Polyline.projected ring (s.after - s.before)))
      = SignType.sign (Polyline.signedArea profile) := by
  obtain ⟨x, y, hframe, rfl⟩ := exists_frame_of_ring h
  have hturned : Polyline.signedArea (profile.map (·.turned (Angle.unit degrees)))
      = Polyline.signedArea profile := by
    rw [Polyline.signedArea_eq, Polyline.doubledArea_turned, Angle.dot_unit, mul_one,
      Polyline.signedArea_eq]
  rw [Polyline.signedArea_projected_carried, hturned, sign_mul, sign_pos hframe.turns, one_mul]

/-! ## All rings -/

theorem exists_sweptRings (h : ∀ s ∈ stations path closed, coincide s.before s.after = false)
    (profile : List (Point2 K)) (step : K) :
    ∃ rings, sweptRings profile (stations path closed) step = .ok rings := by
  refine exists_mapM_eq_ok_iff.mpr fun (s, k) hs ↦ ?_
  have hmem : s ∈ stations path closed := List.fst_mem_of_mem_zipIdx hs
  obtain ⟨x, y, -, hring⟩ := exists_ring (h s hmem) profile (step * Scalar.ofNat k)
  exact ⟨_, hring⟩

section Ends

variable {rings : List (List (Point3 K))}

theorem sign_signedArea_headD {p q : Point3 K} {rest : List (Point3 K)}
    (h : sweptRings profile (stations (p :: q :: rest) false) step = .ok rings) :
    SignType.sign (Polyline.signedArea (Polyline.projected (rings.headD []) (q - p)))
      = SignType.sign (Polyline.signedArea profile) := by
  obtain ⟨others, hstations⟩ := exists_stations_eq_cons p q rest
  have hrings := forall₂_ring_of_sweptRings h
  rw [hstations, List.forall₂_cons_left_iff] at hrings
  obtain ⟨ring, rings, ⟨degrees, hring⟩, -, rfl⟩ := hrings
  rw [List.headD_cons]
  exact sign_signedArea_of_ring (s := ⟨p, p, q⟩) hring

private theorem sign_signedArea_getLastD {l : List (Point3 K)} {p q : Point3 K}
    (h : sweptRings profile (stations (l ++ [p, q]) false) step = .ok rings) :
    SignType.sign (Polyline.signedArea (Polyline.projected (rings.getLastD []) (q - p)))
      = SignType.sign (Polyline.signedArea profile) := by
  obtain ⟨others, hstations⟩ := exists_stations_eq_concat l p q
  have hrings := forall₂_ring_of_sweptRings h
  rw [hstations, ← List.forall₂_reverse_iff, List.reverse_concat, List.forall₂_cons_left_iff]
    at hrings
  obtain ⟨ring, rest, ⟨degrees, hring⟩, -, hreverse⟩ := hrings
  have hlast : rings.getLastD [] = ring := by
    rw [← List.reverse_reverse rings, hreverse, List.reverse_cons, List.getLastD_concat]
  rw [hlast]
  exact sign_signedArea_of_ring (s := ⟨p, q, q⟩) hring

end Ends

/-- No ring is placed on an open path of a single point. -/
private theorem two_le_length_of_sweptRings {rings : List (List (Point3 K))} (hpath : path ≠ [])
    (h : sweptRings profile (stations path false) step = .ok rings) : 2 ≤ path.length := by
  match path, hpath with
  | [p], _ =>
    have hrings := forall₂_ring_of_sweptRings h
    obtain ⟨ring, rings, ⟨degrees, hring⟩, -⟩ := List.forall₂_cons_left_iff.mp hrings
    obtain ⟨m, hm, -⟩ := bind_eq_ok_iff.mp hring
    have hapart : coincide p p = false := coincide_eq_false_of_placement hm
    have hzero : dot (p - p) (p - p) = 0 := by simp [dot_eq]
    rw [coincide_eq_false_iff, hzero] at hapart
    exact absurd (mul_pos Scalar.epsilon_pos Scalar.epsilon_pos) hapart.not_gt
  | _ :: _ :: _, _ => exact Nat.le_add_left _ _

/-- **The rings of a sweep are rigid copies of the profile about the points of the path**, whatever
the path and the twist. Laid down by the first and by the last step of an open path, the end rings
run the way the profile does. -/
theorem isRigidCopy_of_sweptRings {rings : List (List (Point3 K))}
    (h : sweptRings profile (stations path closed) step = .ok rings) :
    List.Forall₂ (IsRigidCopy profile) path rings ∧
      (closed = false → path ≠ [] →
        SignType.sign (Polyline.signedArea
            (Polyline.projected (rings.headD []) (startDirection path)))
          = SignType.sign (Polyline.signedArea profile) ∧
        SignType.sign (Polyline.signedArea
            (Polyline.projected (rings.getLastD []) (endDirection path)))
          = SignType.sign (Polyline.signedArea profile)) := by
  refine ⟨?_, ?_⟩
  · rw [← map_place_stations path closed, List.forall₂_map_left_iff]
    refine (forall₂_ring_of_sweptRings h).imp ?_
    rintro s ring ⟨degrees, hring⟩
    exact isRigidCopy_of_ring hring
  · rintro rfl hpath
    have hlong := two_le_length_of_sweptRings hpath h
    constructor
    · obtain ⟨p, q, rest, rfl⟩ : ∃ p q rest, path = p :: q :: rest := by
        match path, hlong with
        | p :: q :: rest, _ => exact ⟨p, q, rest, rfl⟩
      exact sign_signedArea_headD h
    · obtain ⟨l, p, q, rfl⟩ : ∃ l p q, path = l ++ [p, q] := by
        obtain ⟨l, q, rfl⟩ := List.eq_nil_or_concat' path |>.resolve_left hpath
        obtain ⟨l, p, rfl⟩ := List.eq_nil_or_concat' l |>.resolve_left (by
          rintro rfl
          simp at hlong)
        exact ⟨l, p, q, by simp⟩
      have hend : endDirection (l ++ [p, q]) = q - p := by
        simp [endDirection]
      rw [hend]
      exact sign_signedArea_getLastD h

/-- A clockwise square with a corner at the origin. -/
noncomputable def tile : List (Point2 ℝ) := [⟨0, 0⟩, ⟨0, 2.0⟩, ⟨2.0, 2.0⟩, ⟨2.0, 0⟩]

/-- A path that goes straight down, and then aside. -/
noncomputable def descent : List (Point3 ℝ) := [⟨0, 0, 5.0⟩, ⟨0, 0, 1⟩, ⟨3.0, 0, -3.0⟩]

/-- Along the descent the square turns by an eighth at each point, and both end rings run
clockwise, the first of them upside down. -/
theorem isRigidCopy_of_sweptRings_descent :
    ∃ rings, sweptRings tile (stations descent false) 45 = .ok rings ∧
      List.Forall₂ (IsRigidCopy tile) descent rings ∧
      SignType.sign (Polyline.signedArea
        (Polyline.projected (rings.headD []) ⟨0, 0, -4⟩)) = -1 ∧
      SignType.sign (Polyline.signedArea
        (Polyline.projected (rings.getLastD []) ⟨3, 0, -4⟩)) = -1 := by
  have hstations : ∀ s ∈ stations descent false, coincide s.before s.after = false := by
    simp only [coincide_eq_false_iff, dot_eq, stations, descent]
    norm_num [Scalar.epsilon]
  obtain ⟨rings, hrings⟩ := exists_sweptRings hstations tile 45
  obtain ⟨hcopies, hends⟩ := isRigidCopy_of_sweptRings hrings
  obtain ⟨hfirst, hlast⟩ := hends rfl (by simp [descent])
  have harea : SignType.sign (Polyline.signedArea tile) = -1 := by
    rw [sign_eq_neg_one_iff, Polyline.signedArea_neg_iff]
    norm_num [tile, Polyline.doubledArea, Polyline.edgeSum_cons, Polyline.edgeArea]
  have hstart : startDirection descent = ⟨0, 0, -4⟩ := by
    simp only [descent, startDirection, ext_iff', sub_x, sub_y, sub_z]
    norm_num
  have hend : endDirection descent = ⟨3, 0, -4⟩ := by
    simp only [descent, endDirection, List.reverse_cons, List.reverse_nil, List.nil_append,
      List.cons_append, ext_iff', sub_x, sub_y, sub_z]
    norm_num
  rw [hstart, harea] at hfirst
  rw [hend, harea] at hlast
  exact ⟨rings, hrings, hcopies, hfirst, hlast⟩

end Polyhedron

end SolidModel
