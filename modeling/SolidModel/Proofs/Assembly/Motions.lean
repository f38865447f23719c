import Mathlib
import SolidModel.Assembly
import SolidModel.Proofs.Space.Matrices

/-!
# Moving solids

A solid is moved by moving the points of its leaves, so what holds of the motion of one point holds
of a whole tree: motions one after the other are the motion by the product, and shifts and turns are
motions by the matrices of their names. All else of a solid stays as it is. What that is, is said by
the solid without its places, see `Solid.unplaced`.
-/

namespace SolidModel

variable {K : Type}

/-! ## Changing the leaves -/

namespace Solid

mutual

theorem mapLeaves_mapLeaves (f g : Polyhedron K → Polyhedron K) (s : Solid K) :
    (s.mapLeaves f).mapLeaves g = s.mapLeaves fun p ↦ g (f p) := by
  match s with
  | .polyhedron p => rfl
  | .combination operation finalized parts =>
    exact congrArg (combination operation finalized) (mapLeavesOf_mapLeavesOf f g parts)

theorem mapLeavesOf_mapLeavesOf (f g : Polyhedron K → Polyhedron K) (parts : List (Solid K)) :
    mapLeavesOf g (mapLeavesOf f parts) = mapLeavesOf (fun p ↦ g (f p)) parts := by
  match parts with
  | [] => rfl
  | s :: rest =>
    simp only [mapLeavesOf, mapLeaves_mapLeaves f g s, mapLeavesOf_mapLeavesOf f g rest]

end

/-- A solid without the places of its points: the operations, which combinations are finalized, the
order and nesting of the parts, and the faces and the construction of each leaf. -/
def unplaced (s : Solid K) : Solid K := s.mapLeaves fun p ↦ { p with points := [] }

theorem unplaced_mapLeaves (f : Polyhedron K → List (Point3 K)) (s : Solid K) :
    (s.mapLeaves fun p ↦ { p with points := f p }).unplaced = s.unplaced :=
  mapLeaves_mapLeaves _ _ s

end Solid

variable [Field K] [LinearOrder K] [FloorRing K]

/-! ## Single polyhedra -/

namespace Polyhedron

variable (p : Polyhedron K)

private theorem moved_moved {a b : Matrix4 K} (h : a.row 3 = ⟨0, 0, 0, 1⟩) :
    (p.moved a).moved b = p.moved (b * a) := by
  have hplaces : b.applyPlace ∘ a.applyPlace = (b * a).applyPlace :=
    funext fun q ↦ (Matrix4.applyPlace_mul b h q).symm
  simp only [moved, Polyline.moved, List.map_map, hplaces]

private theorem shifted_eq_moved (delta : Point3 K) :
    p.shifted delta = p.moved (Matrix4.shift delta) := by
  have hplaces : (· + delta) = (Matrix4.shift delta).applyPlace :=
    funext fun q ↦ (Matrix4.applyPlace_shift delta q).symm
  simp only [shifted, moved, Polyline.shifted, Polyline.moved, hplaces]

/-- A turn about an axis is the motion by its matrix; neither is refused. -/
theorem exists_rotate_eq_moved [IsStrictOrderedRing K] [Trig K] [Trig.IsCircular K]
    [Trig.IsPeriodic K] (axis : Axis) (degrees : K) :
    ∃ m, Matrix4.axisRotation axis degrees = .ok m ∧ p.rotate axis degrees = .ok (p.moved m) := by
  refine ⟨_, Matrix4.axisRotation_eq_ok axis degrees, ?_⟩
  have hplaces : (·.turned axis (Angle.unit degrees))
      = (Matrix4.turn (Matrix4.unit axis) (Angle.unit degrees)).applyPlace :=
    funext fun q ↦ (Matrix4.applyPlace_turn axis _ q).symm
  rw [rotate, Polyline.rotatedAbout_eq_ok, Angle.unit_withinTurn, moved, Polyline.moved, ← hplaces]
  rfl

end Polyhedron

/-! ## Trees -/

namespace Solid

/-- **Motions of solids.** Motions one after the other are the motion by the product, if the first
keeps places; shifts, and turns of a polyhedron, are the motions by their matrices; and a motion
moves every leaf, in its place, and changes nothing else. -/
theorem motions [IsStrictOrderedRing K] [Trig K] [Trig.IsCircular K] [Trig.IsPeriodic K]
    (s : Solid K) :
    (∀ a b : Matrix4 K, a.row 3 = ⟨0, 0, 0, 1⟩ → (s.moved a).moved b = s.moved (b * a)) ∧
    (∀ delta, s.shifted delta = s.moved (Matrix4.shift delta)) ∧
    (∀ (p : Polyhedron K) axis degrees, ∃ m, Matrix4.axisRotation axis degrees = .ok m ∧
      p.rotate axis degrees = .ok (p.moved m)) ∧
    ∀ m, (s.moved m).leaves = s.leaves.map (·.moved m) ∧ (s.moved m).unplaced = s.unplaced := by
  refine ⟨fun a b h ↦ ?_, fun delta ↦ ?_, fun p axis degrees ↦ ?_, fun m ↦ ⟨?_, ?_⟩⟩
  · simp only [moved, mapLeaves_mapLeaves, Polyhedron.moved_moved _ h]
  · simp only [moved, shifted, Polyhedron.shifted_eq_moved]
  · exact p.exists_rotate_eq_moved axis degrees
  · exact leaves_mapLeaves _ s
  · exact unplaced_mapLeaves _ s

/-- A quarter turn and a shift, stored by columns. -/
noncomputable def quarterTurn : Matrix4 ℝ :=
  ⟨⟨0, 1, 0, 0⟩, ⟨-1, 0, 0, 0⟩, ⟨0, 0, 1, 0⟩, ⟨5.0, 0, 0, 1⟩, true⟩

/-- An enlargement and a shift, above a last row that keeps no place a place. -/
noncomputable def enlargement : Matrix4 ℝ :=
  ⟨⟨2.0, 0, 0, 0⟩, ⟨0, 2.0, 0, 1⟩, ⟨0, 0, 2.0, 0⟩, ⟨1, 2.0, 3.0, 4.0⟩, false⟩

/-- A single point, and the same point in a union that is not finalized. -/
def nested : Solid ℝ :=
  .combination .difference true
    [.polyhedron ⟨[⟨1, 0, 1⟩], [], none⟩,
      .combination .union false [.polyhedron ⟨[⟨1, 0, 1⟩], [], none⟩]]

/-- Turned and then enlarged, both points are where the product takes them. -/
theorem motions_nested :
    (nested.moved quarterTurn).moved enlargement = nested.moved (enlargement * quarterTurn) ∧
      ((nested.moved quarterTurn).moved enlargement).leaves.map (·.points)
        = [[⟨10, 3, 2⟩], [⟨10, 3, 2⟩]] := by
  have hplace : enlargement.applyPlace (quarterTurn.applyPlace ⟨1, 0, 1⟩) = ⟨10, 3, 2⟩ := by
    norm_num [Matrix4.applyPlace, Matrix4.apply, Matrix4.row, Matrix4.across, Matrix4.stored,
      Point4.get, Point4.dropW, Point3.withW, VectorOps.dot, quarterTurn, enlargement]
  obtain ⟨-, -, -, hleaves⟩ := motions (nested.moved quarterTurn)
  refine ⟨(motions nested).1 _ _ rfl, ?_⟩
  rw [(hleaves _).1, ((motions nested).2.2.2 _).1]
  simp [nested, leaves, leavesOf, Polyhedron.moved, Polyline.moved, hplace]

end Solid

end SolidModel
