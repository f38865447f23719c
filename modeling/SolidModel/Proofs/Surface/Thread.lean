import Mathlib
import SolidModel.Proofs.Plane.QuarterTurn
import SolidModel.Proofs.Surface.Tube
import SolidModel.Thread.Shell

/-!
# The shell of a thread is closed

A thread is a tube whose rings are its sections of four points. The tables that say how a section
is joined to the next are read once, for the first two sections: they are a wall between them, and
the tables for the ends are caps on either. Every other section is the same one shifted, so the
rest is what holds of any tube.
-/

namespace SolidModel

/-! ## Shifting faces -/

namespace Polyhedron

instance (start n : ℕ) (v : ℤ) : Decidable (OnRing start n v) :=
  inferInstanceAs (Decidable (_ ∧ _))

/-- An edge with both ends shifted. -/
def shiftedEdge (d : ℕ) : ℤ × ℤ → ℤ × ℤ := Prod.map (· + (d : ℤ)) (· + (d : ℤ))

theorem edges_shiftedFaces (d : ℕ) (faces : List Face) :
    (Thread.shiftedFaces d faces).flatMap Face.edges
      = (faces.flatMap Face.edges).map (shiftedEdge d) := by
  rw [Thread.shiftedFaces, List.flatMap_map, List.map_flatMap]
  exact List.flatMap_congr fun f _ ↦ Polyline.cyclicPairs_map _ f

private theorem map_shiftedEdge_map (c d : ℕ) (edges : List (ℤ × ℤ)) :
    (edges.map (shiftedEdge c)).map (shiftedEdge d) = edges.map (shiftedEdge (c + d)) := by
  rw [List.map_map]
  refine List.map_congr_left fun e _ ↦ Prod.ext ?_ ?_
  · exact (add_assoc _ _ _).trans (congrArg _ (Nat.cast_add c d).symm)
  · exact (add_assoc _ _ _).trans (congrArg _ (Nat.cast_add c d).symm)

private theorem onRing_add_iff {start n d : ℕ} {v : ℤ} :
    OnRing (start + d) n (v + d) ↔ OnRing start n v := by
  simp only [OnRing]
  omega

private theorem onRing_shiftedEdge_iff {start n d : ℕ} {e : ℤ × ℤ} :
    OnRing (start + d) n (shiftedEdge d e).1 ∧ OnRing (start + d) n (shiftedEdge d e).2 ↔
      OnRing start n e.1 ∧ OnRing start n e.2 :=
  and_congr onRing_add_iff onRing_add_iff

theorem spans_shiftedEdge {border edges : List (ℤ × ℤ)} (d : ℕ) (h : Spans border edges) :
    Spans (border.map (shiftedEdge d)) (edges.map (shiftedEdge d)) :=
  h.map (add_left_injective (d : ℤ))

theorem Joins.shift {n lower upper : ℕ} {below above side : List (ℤ × ℤ)} (d : ℕ)
    (h : Joins (OnRing lower n) (OnRing upper n) below above side) :
    Joins (OnRing (lower + d) n) (OnRing (upper + d) n) (below.map (shiftedEdge d))
      (above.map (shiftedEdge d)) (side.map (shiftedEdge d)) where
  spans := by
    have hspans := spans_shiftedEdge d h.spans
    rw [List.map_append, List.map_map] at hspans
    rw [List.map_map]
    exact hspans
  of_mem_below := by
    simpa only [List.forall_mem_map, onRing_shiftedEdge_iff] using h.of_mem_below
  of_mem_above := by
    simpa only [List.forall_mem_map, onRing_shiftedEdge_iff] using h.of_mem_above
  mem_below := by
    simp only [List.forall_mem_map, onRing_shiftedEdge_iff]
    exact fun e he hends ↦ List.mem_map_of_mem (h.mem_below e he hends)
  mem_above := by
    simp only [List.forall_mem_map, onRing_shiftedEdge_iff]
    exact fun e he hends ↦ List.mem_map_of_mem (f := shiftedEdge d) (h.mem_above e he hends)
  ne := by
    simp only [List.forall_mem_map, shiftedEdge, Prod.map_fst, Prod.map_snd]
    exact fun e he heq ↦ h.ne e he (add_right_cancel heq)

theorem IsWall.shift {n lower upper : ℕ} {below above : List (ℤ × ℤ)} {faces : List Face} (d : ℕ)
    (h : IsWall n lower upper below above faces) :
    IsWall n (lower + d) (upper + d) (below.map (shiftedEdge d)) (above.map (shiftedEdge d))
      (Thread.shiftedFaces d faces) where
  ne_nil := by
    rw [Thread.shiftedFaces, ne_eq, List.map_eq_nil_iff]
    exact h.ne_nil
  joins := by
    rw [edges_shiftedFaces]
    exact h.joins.shift d
  sizes := by
    simpa only [Thread.shiftedFaces, List.forall_mem_map, List.length_map] using h.sizes
  places := by
    simpa only [Thread.shiftedFaces, List.forall_mem_map, onRing_add_iff] using h.places

theorem IsCap.shift {n start count : ℕ} {border : List (ℤ × ℤ)} {faces : List Face} (d : ℕ)
    (h : IsCap (OnRing start n) count border faces) :
    IsCap (OnRing (start + d) n) count (border.map (shiftedEdge d))
      (Thread.shiftedFaces d faces) where
  spans := by
    rw [edges_shiftedFaces]
    exact spans_shiftedEdge d h.spans
  ne := by
    rw [edges_shiftedFaces]
    simp only [List.forall_mem_map, shiftedEdge, Prod.map_fst, Prod.map_snd]
    exact fun e he heq ↦ h.ne e he (add_right_cancel heq)
  triangles := by
    simpa only [Thread.shiftedFaces, List.forall_mem_map, List.length_map, onRing_add_iff]
      using h.triangles
  length_eq := by
    rw [Thread.shiftedFaces, List.length_map, h.length_eq]

end Polyhedron

namespace Thread

open Polyhedron

/-! ## The tables -/

/-- The way around the first section, as the faces to the second one pass it. -/
def sectionEdges (leftHand : Bool) : List (ℤ × ℤ) :=
  if leftHand then [(0, 1), (1, 3), (3, 2), (2, 0)] else [(1, 0), (3, 1), (2, 3), (0, 2)]

theorem isCap_startFaces (leftHand : Bool) :
    IsCap (OnRing 0 4) 2 ((sectionEdges leftHand).map Prod.swap) (startFaces leftHand) := by
  cases leftHand with
  | false => exact ⟨⟨by decide, by decide⟩, by decide, by decide, rfl⟩
  | true => exact ⟨⟨by decide, by decide⟩, by decide, by decide, rfl⟩

theorem isWall_stepFaces (leftHand : Bool) :
    IsWall 4 0 4 (sectionEdges leftHand) ((sectionEdges leftHand).map (shiftedEdge 4))
      (stepFaces leftHand) := by
  cases leftHand with
  | false =>
    exact ⟨by decide, ⟨⟨by decide, by decide⟩, by decide, by decide, by decide, by decide,
      by decide⟩, by decide, by decide⟩
  | true =>
    exact ⟨by decide, ⟨⟨by decide, by decide⟩, by decide, by decide, by decide, by decide,
      by decide⟩, by decide, by decide⟩

theorem isCap_endFaces (leftHand : Bool) :
    IsCap (OnRing 4 4) 2 ((sectionEdges leftHand).map (shiftedEdge 4)) (endFaces leftHand) := by
  cases leftHand with
  | false => exact ⟨⟨by decide, by decide⟩, by decide, by decide, rfl⟩
  | true => exact ⟨⟨by decide, by decide⟩, by decide, by decide, rfl⟩

/-! ## Sections in a row -/

/-- The way around a section behind `k` others. -/
def sectionBorder (leftHand : Bool) (k : ℕ) : List (ℤ × ℤ) :=
  (sectionEdges leftHand).map (shiftedEdge (4 * k))

/-- The faces from a section behind `k` others to the next. -/
def stepWall (leftHand : Bool) (k : ℕ) : List Face :=
  shiftedFaces (4 * k : ℕ) (stepFaces leftHand)

private theorem length_of_mem_stepWall {leftHand : Bool} {k : ℕ} :
    ∀ f ∈ stepWall leftHand k, f.length = 3 := by
  simp only [stepWall, shiftedFaces, List.forall_mem_map, List.length_map]
  cases leftHand <;> decide

private theorem length_stepWall (leftHand : Bool) (k : ℕ) : (stepWall leftHand k).length = 8 := by
  rw [stepWall, shiftedFaces, List.length_map]
  cases leftHand <;> rfl

private theorem sectionBorder_zero (leftHand : Bool) :
    sectionBorder leftHand 0 = sectionEdges leftHand := by
  cases leftHand <;> rfl

private theorem map_shiftedEdge_sectionEdges (leftHand : Bool) (k : ℕ) :
    ((sectionEdges leftHand).map (shiftedEdge 4)).map (shiftedEdge (4 * k))
      = sectionBorder leftHand (k + 1) := by
  rw [map_shiftedEdge_map, sectionBorder, Nat.mul_succ, Nat.add_comm]

theorem isTube_stepWall (leftHand : Bool) :
    IsTube 4 (sectionBorder leftHand) (stepWall leftHand) := by
  intro k
  have hlower : 0 + 4 * k = k * 4 := by omega
  have hupper : 4 + 4 * k = (k + 1) * 4 := by omega
  have h := (isWall_stepFaces leftHand).shift (4 * k)
  rwa [map_shiftedEdge_sectionEdges, hlower, hupper] at h

private theorem isCap_last (leftHand : Bool) (k : ℕ) :
    IsCap (OnRing ((k + 1) * 4) 4) 2 (sectionBorder leftHand (k + 1))
      (shiftedFaces (4 * k : ℕ) (endFaces leftHand)) := by
  have hupper : 4 + 4 * k = (k + 1) * 4 := by omega
  have h := (isCap_endFaces leftHand).shift (4 * k)
  rwa [map_shiftedEdge_sectionEdges, hupper] at h

variable {K : Type} {p : Polyhedron K}

/-- Any number of sections in a row, two at least, are a closed surface of triangles. -/
theorem closedWith_of_faces {leftHand : Bool} {m : ℕ} (hpoints : p.points.length = 4 * (m + 2))
    (hfaces : p.faces = faces leftHand (m + 2)) :
    p.ClosedWith (4 * (m + 2)) 0 (8 * (m + 1) + 4) := by
  -- there are no quads, so there is nothing to cut
  have hcut : IsTube 4 (sectionBorder leftHand)
      fun k ↦ (stepWall leftHand k).flatMap Face.triangles := by
    simpa only [flatMap_triangles_eq length_of_mem_stepWall] using isTube_stepWall leftHand
  -- the caps first, as in any tube, whatever the order in which the faces are made
  have hperm : p.faces.Perm (startFaces leftHand ++ shiftedFaces (4 * m : ℕ) (endFaces leftHand)
      ++ (List.range (m + 1)).flatMap (stepWall leftHand)) := by
    rw [hfaces, faces, List.append_assoc, List.append_assoc]
    exact List.perm_append_comm.append_left _
  have hbottom : IsCap (OnRing 0 4) 2 ((sectionBorder leftHand 0).map Prod.swap)
      (startFaces leftHand) := by
    rw [sectionBorder_zero]
    exact isCap_startFaces leftHand
  have hlast := isCap_last leftHand m
  have hclosed := closed_and_closed_split_of_capped (isTube_stepWall leftHand) hcut hbottom hlast
    (hpoints.trans (Nat.mul_comm _ _)) hperm
  have htriangles : ∀ f ∈ p.faces, f.length = 3 := by
    intro f hf
    simp only [hperm.mem_iff, List.mem_append, List.mem_flatMap] at hf
    rcases hf with (hf | hf) | ⟨k, -, hf⟩
    · exact (hbottom.triangles f hf).1
    · exact (hlast.triangles f hf).1
    · exact length_of_mem_stepWall f hf
  have hlength : p.faces.length = 8 * (m + 1) + 4 := by
    rw [hperm.length_eq, List.length_append, List.length_append, hbottom.length_eq,
      hlast.length_eq, length_walls (length_stepWall leftHand)]
    omega
  have hnone : ∀ f ∈ ([] : List Face), f.length = 4 := by simp
  rw [← hpoints, ← hlength]
  exact closedWith_of_perm hnone htriangles (.of_eq (List.append_nil _).symm) hclosed

/-! ## The points -/

variable [Scalar K]

private theorem Plan.length_sectionsFrom (q : Plan K) (count step : ℕ) (g : Progress K) :
    (q.sectionsFrom count step g).length = count := by
  induction count generalizing step g with
  | zero => rfl
  | succ count ih => rw [Plan.sectionsFrom, List.length_cons, ih]

variable [Trig K]

private theorem length_of_placed {s : ThreadSection K} {degrees z : K} {points : List (Point3 K)}
    (h : s.placed degrees z = .ok points) : points.length = 4 := by
  obtain ⟨d, -, h⟩ := Outcome.bind_eq_ok_iff.mp h
  rw [← Outcome.pure_eq_ok_iff.mp h, ThreadSection.placedAt, List.length_map]
  rfl

theorem Plan.length_points {q : Plan K} {points : List (Point3 K)} (h : q.points = .ok points) :
    points.length = 4 + (q.steps - 1) * 4 := by
  simp only [Plan.points, Outcome.bind_eq_ok_iff, Outcome.pure_eq_ok_iff] at h
  obtain ⟨first, hfirst, later, hlater, rfl⟩ := h
  rw [List.length_append, length_of_placed hfirst,
    Outcome.length_flatten_of_mapM_eq_ok hlater fun _ _ ↦ length_of_placed, List.length_zipIdx,
    Plan.laterSections, Plan.length_sectionsFrom]

omit [Trig K] in
/-- A plan has as many sections as fit along the spread, two at least. -/
theorem steps_of_plan {t : ThreadSpec K} {q : Plan K} (h : plan t = .ok q) :
    ∃ steps : ℤ, Scalar.toInt (spread t / t.pitch * Scalar.ofInt t.segments) = .ok steps ∧
      2 ≤ steps ∧ q.steps = steps.toNat := by
  simp only [plan, Outcome.guard_eq_ok_iff, Outcome.bind_eq_ok_iff, Outcome.pure_eq_ok_iff] at h
  obtain ⟨-, -, -, steps, hsteps, hle, _, -, _, -, -, rfl⟩ := h
  exact ⟨steps, hsteps, Int.not_lt.mp hle, rfl⟩

theorem closed_of_shell {t : ThreadSpec K} (h : shell t = .ok p) : p.Closed := by
  simp only [shell, Outcome.bind_eq_ok_iff, Outcome.pure_eq_ok_iff] at h
  obtain ⟨q, hplan, points, hpoints, rfl⟩ := h
  obtain ⟨steps, -, hle, hq⟩ := steps_of_plan hplan
  obtain ⟨m, hm⟩ : ∃ m, steps.toNat = m + 2 := Nat.exists_eq_add_of_le' (Int.toNat_le_toNat hle)
  have hlength := Plan.length_points hpoints
  rw [hq, hm] at hlength
  rw [hq, hm]
  exact (closedWith_of_faces (hlength.trans (by omega)) rfl).closed

/-- **The shell of a thread is closed.** Whatever its measures, however it runs in and out and
whichever way it turns, it is made of four points for every section and of eight triangles for
every step from one to the next, with two more at either end, and it passes all checks. -/
theorem closedWith_of_shell {t : ThreadSpec K} (h : shell t = .ok p) :
    ∃ steps : ℤ, Scalar.toInt (spread t / t.pitch * Scalar.ofInt t.segments) = .ok steps ∧
      2 ≤ steps ∧ p.ClosedWith (4 * steps.toNat) 0 (8 * (steps.toNat - 1) + 4) := by
  simp only [shell, Outcome.bind_eq_ok_iff, Outcome.pure_eq_ok_iff] at h
  obtain ⟨q, hplan, points, hpoints, rfl⟩ := h
  obtain ⟨steps, hsteps, hle, hq⟩ := steps_of_plan hplan
  obtain ⟨m, hm⟩ : ∃ m, steps.toNat = m + 2 := Nat.exists_eq_add_of_le' (Int.toNat_le_toNat hle)
  refine ⟨steps, hsteps, hle, ?_⟩
  have hlength := Plan.length_points hpoints
  rw [hq, hm] at hlength
  rw [hq, hm]
  exact closedWith_of_faces (hlength.trans (by omega)) rfl

/-- A thread of one turn with a run in and a run out of a quarter turn each. -/
def shortThread (leftHand : Bool) : ThreadSpec ℚ := ⟨2, 3, 1, 2, 4, 90, 90, leftHand⟩

open scoped QuarterTurn in
/-- It has five sections, whichever way it turns. -/
theorem closedWith_of_shell_shortThread :
    (∃ p, shell (shortThread false) = .ok p ∧ p.ClosedWith 20 0 36) ∧
      ∃ p, shell (shortThread true) = .ok p ∧ p.ClosedWith 20 0 36 := by
  have hfive : (Scalar.toInt (spread (shortThread false) / (shortThread false).pitch *
      Scalar.ofInt (shortThread false).segments)).toOption = some 5 := by decide +kernel
  obtain ⟨right, hright⟩ := Outcome.exists_eq_ok_of_isSome
    (e := shell (shortThread false)) (by decide +kernel)
  obtain ⟨left, hleft⟩ := Outcome.exists_eq_ok_of_isSome
    (e := shell (shortThread true)) (by decide +kernel)
  obtain ⟨rightSteps, hrightSteps, -, hrightWith⟩ := closedWith_of_shell hright
  obtain ⟨leftSteps, hleftSteps, -, hleftWith⟩ := closedWith_of_shell hleft
  have hfive := Outcome.eq_ok_of_toOption hfive
  obtain rfl : (5 : ℤ) = rightSteps := Except.ok.inj (hfive.symm.trans hrightSteps)
  obtain rfl : (5 : ℤ) = leftSteps := Except.ok.inj (hfive.symm.trans hleftSteps)
  exact ⟨⟨right, hright, hrightWith⟩, left, hleft, hleftWith⟩

end Thread

end SolidModel
