import Mathlib
import SolidModel.Polyhedron.Sweep
import SolidModel.Proofs.Plane.QuarterTurn
import SolidModel.Proofs.Surface.Tube

/-!
# Sweeps are closed

A sweep is a tube with a ring for each point of its path. Where the rings stand is not looked at:
the frames, the twist and the coordinates decide only whether there is a result. What is used is
how many points there are, and that the path is long enough for its walls not to coincide, which
for a closed one takes three rings.
-/

namespace SolidModel

namespace Polyhedron

variable {K : Type}

/-! ## Stations and rings -/

theorem length_stations {path : List (Point3 K)} (closed : Bool) (hpath : path ≠ []) :
    (stations path closed).length = path.length := by
  have hpos := List.length_pos_iff.mpr hpath
  cases closed with
  | true => simp [stations]
  | false =>
    simp only [stations, Bool.false_eq_true, if_false, List.length_zipWith, List.length_zip,
      List.length_append, List.length_take, List.length_dropLast, List.length_tail,
      List.getLast?_eq_some_getLast hpath, Option.toList_some, List.length_singleton]
    omega

variable [Scalar K] [Trig K]

theorem length_ring {s : Station K} {profile : List (Point2 K)} {degrees : K}
    {ring : List (Point3 K)} (h : s.ring profile degrees = .ok ring) :
    ring.length = profile.length := by
  simp only [Station.ring, Outcome.bind_eq_ok_iff, Outcome.pure_eq_ok_iff] at h
  obtain ⟨frame, -, turned, hturned, rfl⟩ := h
  rw [List.length_map, Outcome.length_of_mapM_eq_ok hturned]

section Rings

variable {profile : List (Point2 K)} {path : List (Point3 K)} {closed : Bool} {step : K}
  {rings : List (List (Point3 K))}

theorem length_sweptRings (hpath : path ≠ [])
    (h : sweptRings profile (stations path closed) step = .ok rings) :
    rings.length = path.length := by
  rw [Outcome.length_of_mapM_eq_ok h, List.length_zipIdx, length_stations closed hpath]

theorem length_flatten_sweptRings (hpath : path ≠ [])
    (h : sweptRings profile (stations path closed) step = .ok rings) :
    rings.flatten.length = path.length * profile.length := by
  rw [Outcome.length_flatten_of_mapM_eq_ok h fun _ _ ↦ length_ring, List.length_zipIdx,
    length_stations closed hpath]

theorem length_of_mem_sweptRings (h : sweptRings profile (stations path closed) step = .ok rings) :
    ∀ ring ∈ rings, ring.length = profile.length :=
  Outcome.forall_mem_of_mapM_eq_ok h fun _ _ ↦ length_ring

end Rings

theorem length_le_of_checkPath {path : List (Point3 K)} {closed : Bool}
    (h : checkPath path closed = .ok ()) : (if closed then 3 else 2) ≤ path.length := by
  simp only [checkPath, Outcome.guard_eq_ok_iff] at h
  exact not_lt.mp h.1

/-! ## The two kinds of sweeps -/

/-- The walls between neighbouring rings around a closed path. -/
def closedFaces (count size : ℕ) : List Face :=
  ((List.range (count - 1)).flatMap fun k ↦ walls (k * size) ((k + 1) * size) size)
    ++ walls ((count - 1) * size) 0 size

section Kinds

variable {profile : List (Point2 K)} {path : List (Point3 K)} {twist : K}
  {made : Noted (Polyhedron K)}

/-- A closed sweep is made if the path passes its check and all rings can be placed, whatever they
look like. -/
theorem sweep_closed_eq_ok_iff :
    sweep profile path twist true = .ok made ↔
      3 ≤ profile.length ∧ checkPath path true = .ok () ∧
        ∃ rings,
          sweptRings profile (stations path true) (twist / Scalar.ofNat path.length) = .ok rings ∧
          ⟨⟨rings.flatten, closedFaces path.length profile.length, some (.sweep twist true)⟩, []⟩
            = made := by
  simp only [sweep, Outcome.guard_eq_ok_iff, Outcome.bind_eq_ok_iff, if_true,
    Outcome.pure_eq_ok_iff, not_lt]
  constructor
  · rintro ⟨hn, ⟨⟩, hcheck, rings, hrings, _, rfl, hmade⟩
    exact ⟨hn, hcheck, rings, hrings, hmade⟩
  · rintro ⟨hn, hcheck, rings, hrings, hmade⟩
    exact ⟨hn, (), hcheck, rings, hrings, _, rfl, hmade⟩

theorem closedWith_of_closedSweep (h : sweep profile path twist true = .ok made) :
    3 ≤ profile.length ∧ 3 ≤ path.length ∧
      made.value.ClosedWith (path.length * profile.length) (path.length * profile.length) 0 := by
  obtain ⟨hn, hcheck, rings, hrings, rfl⟩ := sweep_closed_eq_ok_iff.mp h
  have hcount : 3 ≤ path.length := length_le_of_checkPath hcheck
  have hpath : path ≠ [] := List.length_pos_iff.mp (Nat.zero_lt_of_lt hcount)
  obtain ⟨m, hm⟩ : ∃ m, path.length = m + 2 + 1 := Nat.exists_eq_add_of_le' hcount
  have hpoints := length_flatten_sweptRings hpath hrings
  refine ⟨hn, hcount, ?_⟩
  rw [hm] at hpoints ⊢
  exact closedWith_of_closedRow hn hpoints rfl

theorem closedWith_of_openSweep (h : sweep profile path twist false = .ok made) :
    3 ≤ profile.length ∧ 2 ≤ path.length ∧
      made.value.ClosedWith (path.length * profile.length) ((path.length - 1) * profile.length)
        (2 * (profile.length - 2)) := by
  simp only [sweep, Outcome.guard_eq_ok_iff, Outcome.bind_eq_ok_iff, Bool.false_eq_true, if_false,
    Outcome.pure_eq_ok_iff, not_lt] at h
  obtain ⟨hn, ⟨⟩, hcheck, rings, hrings, first, hfirst, last, hlast, _, rfl, rfl⟩ := h
  have hcount : 2 ≤ path.length := length_le_of_checkPath hcheck
  have hpath : path ≠ [] := List.length_pos_iff.mp (Nat.zero_lt_of_lt hcount)
  obtain ⟨m, hm⟩ : ∃ m, path.length = m + 1 + 1 := Nat.exists_eq_add_of_le' hcount
  have hpoints := length_flatten_sweptRings hpath hrings
  have hlengths := length_of_mem_sweptRings hrings
  have hne : rings ≠ [] := by
    rw [← List.length_pos_iff, length_sweptRings hpath hrings]
    omega
  refine ⟨hn, hcount, ?_⟩
  rw [hm] at hpoints ⊢
  refine closedWith_of_row (fills_of_ofPlanarLoop hlengths (headD_mem hne []) hfirst)
    (fills_of_ofPlanarLoop hlengths (getLastD_mem hne []) hlast) hpoints ?_
  rw [List.append_assoc, List.append_assoc]
  exact (List.perm_append_left_iff _).mpr List.perm_append_comm

theorem closed_of_closedSweep (h : sweep profile path twist true = .ok made) : made.value.Closed :=
  (closedWith_of_closedSweep h).2.2.closed

end Kinds

/-! ## Any sweep -/

/-- **Sweeps are closed.** Whatever the profile, the path and the twist, the surface has a ring
for each point of the path, quads between neighbouring rings, and a triangulated cap at either
end unless it is closed; it passes all checks, and so it does with its quads cut. -/
theorem closedWith_of_sweep {profile : List (Point2 K)} {path : List (Point3 K)} {twist : K}
    {closed : Bool} {made : Noted (Polyhedron K)} (h : sweep profile path twist closed = .ok made) :
    3 ≤ profile.length ∧ (if closed then 3 else 2) ≤ path.length ∧
      made.value.ClosedWith (profile.length * path.length)
        (profile.length * if closed then path.length else path.length - 1)
        (if closed then 0 else 2 * (profile.length - 2)) := by
  rw [Nat.mul_comm profile.length, Nat.mul_comm profile.length]
  cases closed with
  | true => exact closedWith_of_closedSweep h
  | false => exact closedWith_of_openSweep h

/-- A clockwise square about the origin. -/
def square : List (Point2 ℚ) := [⟨-1, -1⟩, ⟨-1, 1⟩, ⟨1, 1⟩, ⟨1, -1⟩]

/-- The corners of a triangle with sides 7, 15 and 20, the first side upright. -/
def bend : List (Point3 ℚ) := [⟨0, 0, 0⟩, ⟨0, 0, 7⟩, ⟨12, 0, 16⟩]

open scoped QuarterTurn in
/-- Along two sides of the triangle with half a turn, and around it with three quarters. -/
theorem closedWith_of_sweep_bend :
    (∃ made, sweep square bend 180 false = .ok made ∧ made.value.ClosedWith 12 8 4) ∧
      ∃ made, sweep square bend 270 true = .ok made ∧ made.value.ClosedWith 12 12 0 := by
  obtain ⟨opened, hopened⟩ := Outcome.exists_eq_ok_of_isSome
    (e := sweep square bend 180 false) (by decide +kernel)
  obtain ⟨ring, hring⟩ := Outcome.exists_eq_ok_of_isSome
    (e := sweep square bend 270 true) (by decide +kernel)
  exact ⟨⟨opened, hopened, (closedWith_of_sweep hopened).2.2⟩,
    ring, hring, (closedWith_of_sweep hring).2.2⟩

end Polyhedron

end SolidModel
