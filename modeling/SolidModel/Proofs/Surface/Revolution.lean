import Mathlib
import SolidModel.Polyhedron.Revolution
import SolidModel.Proofs.Plane.QuarterTurn
import SolidModel.Proofs.Surface.Tube

/-!
# Solids of revolution are closed

A revolved profile is a tube, but its rings run the other way: a clockwise profile set upright runs
counter-clockwise seen along the direction in which it is turned. So its walls span the rings
backwards, and it is the last cap that is reversed. After a full turn there are as many rings as
segments, at least three, and the last wall leads back to the first ring; otherwise there is one
ring more, and two caps.
-/

namespace SolidModel

namespace Polyhedron

variable {K : Type}

/-! ## The two kinds of turns -/

section Kinds

variable {n m : ℕ} {p : Polyhedron K}

/-- Revolved rings in a row, with a cap over the first and a reversed cap over the last. -/
theorem closedWith_of_partialTurn (hpoints : p.points.length = (m + 1 + 1) * n)
    {first last : Triangulation} (hfirst : first.Fills n) (hlast : last.Fills n)
    (hfaces : p.faces = revolvedStrips n (m + 1 + 1) ++
      (cap 0 first ++ cap ((m + 1) * n) last.reversed)) :
    p.ClosedWith ((m + 1 + 1) * n) ((m + 1) * n) (2 * (n - 2)) := by
  have hbottom : IsCap (OnRing 0 n) (n - 2) (((ringEdges (0 * n) n).map Prod.swap).map Prod.swap)
      (cap 0 first) := by
    rw [Nat.zero_mul, List.map_map, Prod.swap_swap_eq, List.map_id]
    exact isCap_cap 0 hfirst
  refine closedWith_of_capped (isQuadWall_revolvedWalls_row hfirst.three_le) hbottom
    (isCap_cap_reversed _ hlast) hpoints ?_
  rw [hfaces]
  exact List.perm_append_comm

/-- Revolved rings in a row, with a wall from the last to the first. -/
theorem closedWith_of_fullTurn (hn : 3 ≤ n) (hpoints : p.points.length = (m + 2 + 1) * n)
    (hfaces : p.faces = revolvedStrips n (m + 2 + 1) ++ revolvedWalls ((m + 2) * n) 0 n) :
    p.ClosedWith ((m + 2 + 1) * n) ((m + 2 + 1) * n) 0 := by
  refine closedWith_of_ring (isQuadWall_revolvedWalls_row hn) ?_ hpoints hfaces
  rw [Nat.zero_mul]
  refine isQuadWall_revolvedWalls hn (.inr ?_)
  rw [Nat.succ_mul]
  omega

end Kinds

/-! ## Any turn -/

variable [Scalar K] [Trig K]

section Rings

variable {profile : List (Point2 K)} {step : K} {count : ℕ} {rings : List (List (Point3 K))}

theorem length_revolvedRing {axis : Axis} {degrees : K} {ring : List (Point3 K)}
    (h : Polyline.rotatedAbout (Polyline.upright profile) axis degrees = .ok ring) :
    ring.length = profile.length := by
  rw [Outcome.length_of_mapM_eq_ok h, Polyline.upright, List.length_map]

theorem length_revolvedRings (h : revolvedRings profile step count = .ok rings) :
    rings.length = count := by
  rw [Outcome.length_of_mapM_eq_ok h, List.length_range]

theorem length_flatten_revolvedRings (h : revolvedRings profile step count = .ok rings) :
    rings.flatten.length = count * profile.length := by
  rw [Outcome.length_flatten_of_mapM_eq_ok h fun _ _ ↦ length_revolvedRing, List.length_range]

theorem length_of_mem_revolvedRings (h : revolvedRings profile step count = .ok rings) :
    ∀ ring ∈ rings, ring.length = profile.length :=
  Outcome.forall_mem_of_mapM_eq_ok h fun _ _ ↦ length_revolvedRing

end Rings

theorem closedWith_of_turn {profile : List (Point2 K)} {degrees : K} {segments : ℤ}
    {made : Noted (Polyhedron K)} (h : rotateExtrude profile degrees segments = .ok made) :
    3 ≤ profile.length ∧ 3 ≤ segments ∧
      made.value.ClosedWith
        (profile.length * if degrees == 360.0 then segments.toNat else segments.toNat + 1)
        (profile.length * segments.toNat)
        (if degrees == 360.0 then 0 else 2 * (profile.length - 2)) := by
  simp only [rotateExtrude, Outcome.guard_eq_ok_iff, not_lt] at h
  obtain ⟨hn, -, hsegments, h⟩ := h
  obtain ⟨m, hm⟩ : ∃ m, segments.toNat = m + 2 + 1 :=
    Nat.exists_eq_add_of_le' (Int.toNat_le_toNat hsegments)
  refine ⟨hn, hsegments, ?_⟩
  rw [Nat.mul_comm profile.length, Nat.mul_comm profile.length, hm]
  split at h
  · obtain ⟨_, hthrow, -⟩ := Outcome.bind_eq_ok_iff.mp h
    cases hthrow
  obtain ⟨rings, hrings, h⟩ := Outcome.bind_eq_ok_iff.mp h
  have hpoints := length_flatten_revolvedRings hrings
  cases hfull : degrees == 360.0 with
  | true =>
    simp only [hfull, if_true, hm, Outcome.bind_eq_ok_iff, Outcome.pure_eq_ok_iff] at h hpoints ⊢
    obtain ⟨_, rfl, rfl⟩ := h
    exact closedWith_of_fullTurn hn hpoints rfl
  | false =>
    have hlengths := length_of_mem_revolvedRings hrings
    have hne : rings ≠ [] := by
      rw [← List.length_pos_iff, length_revolvedRings hrings, hfull]
      exact Nat.succ_pos _
    simp only [hfull, Bool.false_eq_true, if_false, hm, Outcome.bind_eq_ok_iff,
      Outcome.pure_eq_ok_iff] at h hpoints ⊢
    obtain ⟨first, hfirst, normal, -, last, hlast, _, rfl, rfl⟩ := h
    exact closedWith_of_partialTurn hpoints
      (fills_of_ofPlanarLoop hlengths (headD_mem hne []) hfirst)
      (fills_of_ofPlanarLoop hlengths (getLastD_mem hne []) hlast) rfl

theorem closed_of_rotateExtrude {profile : List (Point2 K)} {degrees : K} {segments : ℤ}
    {made : Noted (Polyhedron K)} (h : rotateExtrude profile degrees segments = .ok made) :
    made.value.Closed := (closedWith_of_turn h).2.2.closed

/-- **Solids of revolution are closed.** Whatever the profile, the angle and the number of
segments, there are quads between neighbouring rings, and a triangulated cap at either end unless
the turn is full; the surface passes all checks, and so it does with its quads cut. The caps may
just as well be cut into other ears. -/
theorem closedWith_of_rotateExtrude {profile : List (Point2 K)} {degrees : K} {segments : ℤ}
    {made : Noted (Polyhedron K)} (h : rotateExtrude profile degrees segments = .ok made) :
    3 ≤ profile.length ∧ 3 ≤ segments ∧
      made.value.ClosedWith
        (profile.length * if degrees == 360.0 then segments.toNat else segments.toNat + 1)
        (profile.length * segments.toNat)
        (if degrees == 360.0 then 0 else 2 * (profile.length - 2)) ∧
      ∀ first last : Triangulation, first.Fills profile.length → last.Fills profile.length →
        ∀ p : Polyhedron K, p.points.length = (segments.toNat + 1) * profile.length →
          p.faces = revolvedStrips profile.length (segments.toNat + 1) ++
            (cap 0 first ++ cap (segments.toNat * profile.length) last.reversed) →
          p.ClosedWith (profile.length * (segments.toNat + 1)) (profile.length * segments.toNat)
            (2 * (profile.length - 2)) := by
  obtain ⟨hn, hsegments, hclosed⟩ := closedWith_of_turn h
  refine ⟨hn, hsegments, hclosed, fun first last hfirst hlast p hpoints hfaces ↦ ?_⟩
  obtain ⟨m, hm⟩ : ∃ m, segments.toNat = m + 1 := ⟨segments.toNat - 1, by omega⟩
  rw [hm] at hpoints hfaces ⊢
  rw [Nat.mul_comm profile.length, Nat.mul_comm profile.length]
  exact closedWith_of_partialTurn hpoints hfirst hlast hfaces

/-- The clockwise section of a square ring. -/
def ringSection : List (Point2 ℚ) := [⟨1, 0⟩, ⟨1, 1⟩, ⟨2, 1⟩, ⟨2, 0⟩]

open scoped QuarterTurn in
/-- Three quarters of the ring, and all of it. -/
theorem closedWith_of_rotateExtrude_ringSection :
    (∃ made, rotateExtrude ringSection 270 3 = .ok made ∧ made.value.ClosedWith 16 12 4) ∧
      ∃ made, rotateExtrude ringSection 360 4 = .ok made ∧ made.value.ClosedWith 16 16 0 := by
  obtain ⟨part, hpart⟩ := Outcome.exists_eq_ok_of_isSome
    (e := rotateExtrude ringSection 270 3) (by decide +kernel)
  obtain ⟨ring, hring⟩ := Outcome.exists_eq_ok_of_isSome
    (e := rotateExtrude ringSection 360 4) (by decide +kernel)
  have hopen : ((270 : ℚ) == 360.0) = false := by decide +kernel
  have hfull : ((360 : ℚ) == 360.0) = true := by decide +kernel
  have hpartWith := (closedWith_of_rotateExtrude hpart).2.2.1
  have hringWith := (closedWith_of_rotateExtrude hring).2.2.1
  rw [hopen] at hpartWith
  rw [hfull] at hringWith
  exact ⟨⟨part, hpart, hpartWith⟩, ring, hring, hringWith⟩

end Polyhedron

end SolidModel
