import Mathlib
import SolidModel.Demo
import SolidModel.Proofs.Plane.RationalTurn
import SolidModel.Proofs.Surface.Prism
import SolidModel.Proofs.Surface.Revolution
import SolidModel.Proofs.Surface.Sweep
import SolidModel.Proofs.Surface.Thread

/-!
# Fasteners are closed

A fastener is a combination of solids, and its leaves are prisms, thread shells and solids of
revolution, shifted and turned after they were made. A check counts points and reads faces, so it
does not notice where a leaf was brought, and putting solids together and shifting them leaves the
leaves closed. So every fastener is closed leaf by leaf, and the report on the scene has nothing to
complain about.
-/

namespace SolidModel

open Outcome

variable {K : Type}

/-! ## Combinations of closed solids -/

/-- Every polyhedron of the solid passes all checks. -/
def Solid.Closed (s : Solid K) : Prop := ∀ p ∈ s.leaves, p.Closed

theorem Solid.closed_polyhedron {p : Polyhedron K} (h : p.Closed) : (polyhedron p).Closed := by
  rintro _ (_ | ⟨_, ⟨⟩⟩)
  exact h

namespace Combination

/-- Every polyhedron of the combination passes all checks. -/
def Closed (c : Combination K) : Prop := ∀ p ∈ c.leaves, p.Closed

theorem Closed.toSolid {c : Combination K} (h : c.Closed) : c.toSolid.Closed := h

theorem closed_finalize_ofParts {operation : Operation} {parts : List (Solid K)}
    (h : ∀ s ∈ parts, s.Closed) : (ofParts operation parts).finalize.state.Closed := by
  intro p hp
  rw [leaves_finalize, leaves_ofParts, Solid.leavesOf_eq_flatMap] at hp
  obtain ⟨s, hs, hp⟩ := List.mem_flatMap.mp hp
  exact h s hs p hp

private theorem closed_pair {operation : Operation} {s t : Solid K} (hs : s.Closed)
    (ht : t.Closed) : (ofParts operation [s, t]).finalize.state.Closed :=
  closed_finalize_ofParts (List.forall_mem_cons.mpr ⟨hs, List.forall_mem_singleton.mpr ht⟩)

theorem Closed.shifted [Scalar K] {c : Combination K} (h : c.Closed) (delta : Point3 K) :
    (c.shifted delta).Closed := by
  intro p hp
  rw [leaves_shifted] at hp
  obtain ⟨q, hq, rfl⟩ := List.mem_map.mp hp
  exact (h q hq).shifted delta

/-- The last thing that is done to a fastener is to shift it to the middle, if that is wanted. -/
theorem Closed.centered [Scalar K] {c : Combination K} (h : c.Closed) (center : Bool)
    (delta : Point3 K) : (if center then c.shifted delta else c).Closed := by
  split
  · exact h.shifted delta
  · exact h

end Combination

variable [Scalar K] [Trig K]

/-! ## The fasteners -/

open Combination

theorem Thread.closed_of_threadedCylinder {t : ThreadSpec K} {center : Bool}
    {made : Noted (Combination K)} (h : threadedCylinder t center = .ok made) :
    made.value.Closed := by
  simp only [threadedCylinder, bind_eq_ok_iff, pure_eq_ok_iff] at h
  obtain ⟨thread, hthread, core, hcore, rfl⟩ := h
  have hplaced (p : Polyhedron K) (hp : p.Closed) :
      (Solid.polyhedron (if center then p.shifted ⟨0.0, 0.0, -t.length / 2.0⟩ else p)).Closed := by
    refine Solid.closed_polyhedron ?_
    split
    · exact hp.shifted _
    · exact hp
  exact closed_pair (hplaced _ (closed_of_shell hthread))
    (hplaced _ (Polyhedron.closed_of_cylinder hcore))

namespace Chamfer

variable {size oversize radius : K} {segments : ℤ}

theorem closed_of_circleCutter {degrees : K} {made : Noted (Polyhedron K)}
    (h : circleCutter size oversize radius degrees segments = .ok made) : made.value.Closed := by
  simp only [circleCutter, bind_eq_ok_iff] at h
  obtain ⟨outline, -, h⟩ := h
  exact Polyhedron.closed_of_rotateExtrude h

theorem closed_of_cylinderCutter {height : K} {center : Bool} {made : Noted (Combination K)}
    (h : cylinderCutter size oversize radius height segments center = .ok made) :
    made.value.Closed := by
  simp only [cylinderCutter, bind_eq_ok_iff, pure_eq_ok_iff] at h
  obtain ⟨lower, hlower, upper, hupper, turned, hturned, rfl⟩ := h
  have hraised := ((closed_of_circleCutter hupper).rotate hturned).shifted ⟨0.0, 0.0, height⟩
  exact (closed_pair (Solid.closed_polyhedron (closed_of_circleCutter hlower))
    (Solid.closed_polyhedron hraised)).centered center _

end Chamfer

namespace Fastener

variable {m : ℤ} {length height leadIn leadOut : K} {segments : ℤ} {leftHand center : Bool}
  {made : Noted (Combination K)}

theorem closed_of_threadedRod
    (h : threadedRod m length segments leadIn leadOut leftHand center = .ok made) :
    made.value.Closed := Thread.closed_of_threadedCylinder h

theorem closed_of_tap (h : tap m length segments leftHand center = .ok made) :
    made.value.Closed := Thread.closed_of_threadedCylinder h

theorem closed_of_hexBlank {width : K} {blank : Noted (Polyhedron K)}
    (h : hexBlank width height = .ok blank) : blank.value.Closed := by
  obtain ⟨outline, -, h⟩ := bind_eq_ok_iff.mp h
  exact Polyhedron.closed_of_linearExtrude h

theorem closed_of_hexBolt {headHeight : K} {chamfered : Bool}
    (h : hexBolt m length headHeight segments leadIn chamfered leftHand center = .ok made) :
    made.value.Closed := by
  simp only [hexBolt, bind_eq_ok_iff] at h
  obtain ⟨rod, hrod, blank, hblank, h⟩ := h
  have hraised := ((closed_of_threadedRod hrod).shifted ⟨0.0, 0.0, headHeight⟩).toSolid
  have hplain := Solid.closed_polyhedron (closed_of_hexBlank hblank)
  cases chamfered with
  | true =>
    simp only [if_true, bind_eq_ok_iff, pure_eq_ok_iff] at h
    obtain ⟨cutters, hcutters, _, rfl, rfl⟩ := h
    have hcut := (Chamfer.closed_of_cylinderCutter hcutters).toSolid
    exact (closed_pair hraised (closed_pair hplain hcut).toSolid).centered center _
  | false =>
    simp only [Bool.false_eq_true, if_false, bind_eq_ok_iff, pure_eq_ok_iff] at h
    obtain ⟨_, rfl, rfl⟩ := h
    exact (closed_pair hraised hplain).centered center _

theorem closed_of_hexNut {chamfered : Bool}
    (h : hexNut m height segments chamfered leftHand center = .ok made) :
    made.value.Closed := by
  simp only [hexNut, bind_eq_ok_iff] at h
  obtain ⟨cutter, hcutter, blank, hblank, h⟩ := h
  have hlowered := ((closed_of_tap hcutter).shifted ⟨0.0, 0.0, -10.0⟩).toSolid
  have hplain := Solid.closed_polyhedron (closed_of_hexBlank hblank)
  cases chamfered with
  | true =>
    simp only [if_true, bind_eq_ok_iff, pure_eq_ok_iff] at h
    obtain ⟨cutters, hcutters, _, rfl, rfl⟩ := h
    have hcut := (Chamfer.closed_of_cylinderCutter hcutters).toSolid
    exact (closed_finalize_ofParts (by simp [hplain, hlowered, hcut])).centered center _
  | false =>
    simp only [Bool.false_eq_true, if_false, bind_eq_ok_iff, pure_eq_ok_iff] at h
    obtain ⟨_, rfl, rfl⟩ := h
    exact (closed_pair hplain hlowered).centered center _

end Fastener

/-! ## The scene and its report -/

namespace Demo

variable {m : ℤ} {length : K} {segments : ℤ} {made : Noted (Combination K)}

theorem closed_of_scene (h : scene m length segments = .ok made) : made.value.Closed := by
  simp only [scene, bind_eq_ok_iff, pure_eq_ok_iff] at h
  obtain ⟨size, -, bolt, hbolt, nut, hnut, circle, -, star, -, ring, hring, rfl⟩ := h
  have hboltClosed := (Fastener.closed_of_hexBolt hbolt).toSolid
  have hnutBeside := ((Fastener.closed_of_hexNut hnut).shifted ⟨3.0 * size, 0.0, 0.0⟩).toSolid
  have hringBeside := Solid.closed_polyhedron
    ((Polyhedron.closed_of_closedSweep hring).shifted ⟨-6.0 * size, 0.0, 0.0⟩)
  exact closed_finalize_ofParts (by simp [hboltClosed, hnutBeside, hringBeside])

omit [Scalar K] [Trig K] in
private theorem report_of_closed [NumberText K] {c : Combination K} (h : c.Closed) :
    report c = c.leaves.map fun p ↦ p.text ++ ": watertight=True oriented=True" := by
  refine List.map_congr_left fun p hp ↦ ?_
  have hclosed := h p hp
  rw [line, hclosed.watertight, hclosed.oriented, String.append_assoc, String.append_assoc,
    String.append_assoc]
  rfl

end Demo

namespace Fastener

/-- **Fasteners are closed.** Whatever is asked for, if it is made then every polyhedron in it
passes all checks; and the report on the scene has a line for each polyhedron from left to right,
which says so. -/
theorem closed_constructions [NumberText K] :
    (∀ (t : ThreadSpec K) (center : Bool) (made : Noted (Combination K)),
      Thread.threadedCylinder t center = .ok made → made.value.Closed) ∧
    (∀ (m : ℤ) (length : K) (segments : ℤ) (leadIn leadOut : K) (leftHand center : Bool)
        (made : Noted (Combination K)),
      threadedRod m length segments leadIn leadOut leftHand center = .ok made →
        made.value.Closed) ∧
    (∀ (m : ℤ) (length : K) (segments : ℤ) (leftHand center : Bool)
        (made : Noted (Combination K)),
      tap m length segments leftHand center = .ok made → made.value.Closed) ∧
    (∀ (m : ℤ) (length headHeight : K) (segments : ℤ) (leadIn : K)
        (chamfered leftHand center : Bool) (made : Noted (Combination K)),
      hexBolt m length headHeight segments leadIn chamfered leftHand center = .ok made →
        made.value.Closed) ∧
    (∀ (m : ℤ) (height : K) (segments : ℤ) (chamfered leftHand center : Bool)
        (made : Noted (Combination K)),
      hexNut m height segments chamfered leftHand center = .ok made → made.value.Closed) ∧
    (∀ (size oversize radius degrees : K) (segments : ℤ) (made : Noted (Polyhedron K)),
      Chamfer.circleCutter size oversize radius degrees segments = .ok made →
        made.value.Closed) ∧
    (∀ (size oversize radius height : K) (segments : ℤ) (center : Bool)
        (made : Noted (Combination K)),
      Chamfer.cylinderCutter size oversize radius height segments center = .ok made →
        made.value.Closed) ∧
    ∀ (m : ℤ) (length : K) (segments : ℤ) (made : Noted (Combination K)),
      Demo.scene m length segments = .ok made → made.value.Closed ∧
        Demo.report made.value
          = made.value.leaves.map fun p ↦ p.text ++ ": watertight=True oriented=True" :=
  ⟨fun _ _ _ ↦ Thread.closed_of_threadedCylinder, fun _ _ _ _ _ _ _ _ ↦ closed_of_threadedRod,
    fun _ _ _ _ _ _ ↦ closed_of_tap, fun _ _ _ _ _ _ _ _ _ ↦ closed_of_hexBolt,
    fun _ _ _ _ _ _ _ ↦ closed_of_hexNut, fun _ _ _ _ _ _ ↦ Chamfer.closed_of_circleCutter,
    fun _ _ _ _ _ _ _ ↦ Chamfer.closed_of_cylinderCutter,
    fun _ _ _ _ h ↦ ⟨Demo.closed_of_scene h, Demo.report_of_closed (Demo.closed_of_scene h)⟩⟩

open scoped RationalTurn in
/-- The scene of the smallest size with three segments has eleven polyhedra; and a chamfer may go
around a corner only. -/
theorem closed_constructions_smallest :
    (∃ made, Demo.scene 2 (1 : ℚ) 3 = .ok made ∧ made.value.leaves.length = 11 ∧
      made.value.Closed ∧ Demo.report made.value
        = made.value.leaves.map fun p ↦ p.text ++ ": watertight=True oriented=True") ∧
      ∃ made, Chamfer.circleCutter (1 : ℚ) 1 5 90 3 = .ok made ∧ made.value.Closed := by
  obtain ⟨scene, hscene⟩ := Outcome.exists_eq_ok_of_isSome
    (e := Demo.scene 2 (1 : ℚ) 3) (by decide +kernel)
  obtain ⟨corner, hcorner⟩ := Outcome.exists_eq_ok_of_isSome
    (e := Chamfer.circleCutter (1 : ℚ) 1 5 90 3) (by decide +kernel)
  have hleaves : (Demo.scene 2 (1 : ℚ) 3).toOption.map (·.value.leaves.length) = some 11 := by
    decide +kernel
  rw [hscene] at hleaves
  obtain ⟨-, -, -, -, -, hcutter, -, hmade⟩ := closed_constructions (K := ℚ)
  obtain ⟨hclosed, hreport⟩ := hmade 2 1 3 scene hscene
  exact ⟨⟨scene, hscene, Option.some.inj hleaves, hclosed, hreport⟩, corner, hcorner,
    hcutter _ _ _ _ _ _ hcorner⟩

end Fastener

end SolidModel
