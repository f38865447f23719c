import Mathlib
import SolidModel.Proofs.Thread.Measures

/-!
# Left-hand threads are mirror images

A left-hand thread is made like a right-hand one, with the angles of its sections taken backwards
and with tables of faces of its own. It is the mirror image of the right-hand thread in the plane
through its axis and its first section: the mirror leaves heights alone and turns angles around, and
it turns every face inside out, which the tables undo by listing each of them in reverse.

None of this depends on how numbers are rounded. What is used of them is that a sign passes through
a product, that it makes no number infinite, and that zero has none, see `Scalar.HasSigns`.
-/

namespace SolidModel

/-- The laws of signs that exact numbers obey. Rounded ones obey them too, if the two zeros that
they may have are taken for one. -/
class Scalar.HasSigns (K : Type) [Scalar K] : Prop where
  neg_zero : -(0.0 : K) = 0.0
  neg_mul : ∀ a b : K, -a * b = -(a * b)
  isInfinite_neg : ∀ a : K, isInfinite (-a) = isInfinite a

instance {K : Type} [Field K] [LinearOrder K] [FloorRing K] : Scalar.HasSigns K where
  neg_zero := by rw [Scalar.zero_eq, neg_zero]
  neg_mul := neg_mul
  isInfinite_neg a := by rw [Scalar.isInfinite_eq_false, Scalar.isInfinite_eq_false]

/-! ## Mirror images -/

/-- The image of a point in the X/Z plane. -/
def Point3.mirrored {K : Type} [Neg K] (p : Point3 K) : Point3 K := ⟨p.x, -p.y, p.z⟩

/-- The image of a polyhedron in the X/Z plane: every face is listed in reverse, so that it is still
seen clockwise from outside. -/
def Polyhedron.mirrored {K : Type} [Neg K] (p : Polyhedron K) : Polyhedron K :=
  { p with points := p.points.map Point3.mirrored, faces := p.faces.map List.reverse }

/-! ## Sections at opposite angles -/

section OppositeAngles

variable {K : Type} [Scalar K] [Trig K] [Scalar.HasSigns K] [Trig.HasParity K]

theorem Angle.direction_neg (degrees : K) :
    direction (-degrees) = (direction degrees).map fun d ↦ ⟨d.x, -d.y⟩ := by
  simp only [direction, cos, sin, apply, Scalar.HasSigns.isInfinite_neg, Trig.HasParity.cos_neg,
    Trig.HasParity.sin_neg]
  split <;> rfl

namespace ThreadSection

omit [Trig K] [Trig.HasParity K] in
private theorem placedAt_mirrored (s : ThreadSection K) (d : Point2 K) (z : K) :
    s.placedAt ⟨d.x, -d.y⟩ z = (s.placedAt d z).map Point3.mirrored := by
  simp only [placedAt, List.map_map]
  refine List.map_congr_left fun p _ ↦ ?_
  simp only [Function.comp_apply, Point3.mirrored, Scalar.HasSigns.neg_mul]

theorem placed_neg (s : ThreadSection K) (degrees z : K) :
    s.placed (-degrees) z = (s.placed degrees z).map (List.map Point3.mirrored) := by
  rw [placed, placed, Angle.direction_neg]
  cases Angle.direction degrees with
  | error fault => rfl
  | ok d => exact congrArg Except.ok (placedAt_mirrored s d z)

/-- A section at the angle zero stands in the mirror, and is its own image. -/
theorem placed_zero (s : ThreadSection K) (z : K) :
    s.placed 0.0 z = (s.placed 0.0 z).map (List.map Point3.mirrored) := by
  rw [← placed_neg, Scalar.HasSigns.neg_zero]

end ThreadSection

end OppositeAngles

/-! ## Threads of either hand -/

/-- The same measures, for a thread of the given hand. -/
def ThreadSpec.ofHand {K : Type} (t : ThreadSpec K) (left : Bool) : ThreadSpec K :=
  { t with leftHand := left }

namespace Thread

/-- The tables of the left hand are those of the right hand, every face in reverse. -/
theorem faces_leftHanded (steps : ℕ) : faces true steps = (faces false steps).map List.reverse := by
  have hshift (offset : ℤ) (fs : List Face) :
      shiftedFaces offset (fs.map List.reverse) = (shiftedFaces offset fs).map List.reverse := by
    simp only [shiftedFaces, List.map_map]
    exact List.map_congr_left fun f _ ↦ List.map_reverse
  have hstart : startFaces true = (startFaces false).map List.reverse := rfl
  have hstep : stepFaces true = (stepFaces false).map List.reverse := rfl
  have hend : endFaces true = (endFaces false).map List.reverse := rfl
  simp only [faces, hstart, hstep, hend, hshift, List.map_append, List.map_flatMap]

variable {K : Type} [Scalar K]

/-- The plan of the same thread with the given hand. -/
def Plan.ofHand (p : Plan K) (left : Bool) : Plan K := { p with leftHand := left }

/-- No check depends on the hand, and the plan does in nothing but the hand itself. -/
theorem plan_ofHand (t : ThreadSpec K) (left : Bool) :
    plan (t.ofHand left) = (plan t).map fun p ↦ p.ofHand left := by
  simp only [plan, ThreadSpec.ofHand]
  change _ = (fun p ↦ Plan.ofHand p left) <$> _
  simp only [apply_ite (Functor.map _), map_bind]
  rfl

private theorem laterSections_ofHand (p : Plan K) (left right : Bool) :
    (p.ofHand left).laterSections = (p.ofHand right).laterSections := by
  rw [Plan.laterSections_eq, Plan.laterSections_eq]
  rfl

variable [Trig K]

/-- The points of all sections behind the first in their places. -/
def Plan.laterRings (p : Plan K) : Except (Fault K) (List (List (Point3 K))) :=
  p.laterSections.zipIdx.mapM fun (s, step) ↦ s.placed (p.angleAt step) (p.heightAt step)

theorem Plan.points_eq_laterRings (p : Plan K) : p.points = (do
    let first ← p.start.placed 0.0 0.0
    let later ← p.laterRings
    return first ++ later.flatten) := rfl

variable [Scalar.HasSigns K] [Trig.HasParity K]

private theorem Plan.laterRings_leftHanded (p : Plan K) :
    (p.ofHand true).laterRings
      = (p.ofHand false).laterRings.map (List.map (List.map Point3.mirrored)) := by
  rw [laterRings, laterSections_ofHand p true false]
  exact Outcome.mapM_eq_map (fun a ↦ a.1.placed_neg _ _) _

private theorem Plan.points_leftHanded (p : Plan K) :
    (p.ofHand true).points = (p.ofHand false).points.map (List.map Point3.mirrored) := by
  have hfirst : (p.ofHand true).start.placed 0.0 0.0
      = ((p.ofHand false).start.placed 0.0 0.0).map (List.map Point3.mirrored) :=
    p.start.placed_zero 0.0
  rw [points_eq_laterRings, points_eq_laterRings, hfirst, laterRings_leftHanded]
  cases (p.ofHand false).start.placed 0.0 0.0 with
  | error fault => rfl
  | ok first =>
    cases (p.ofHand false).laterRings with
    | error fault => rfl
    | ok later =>
      simp only [Except.map, bind, Except.bind, pure, Except.pure, List.map_append,
        List.map_flatten]

/-- **A left-hand thread is the mirror image of the right-hand one.** Whatever its measures are, it
is refused when the other one is, for the same cause. Otherwise it has the images of the points of
the other one, in the same order, and its faces in the same order, each of them in reverse. -/
theorem shell_leftHanded (t : ThreadSpec K) :
    shell (t.ofHand true) = (shell (t.ofHand false)).map Polyhedron.mirrored := by
  rw [shell, shell, plan_ofHand, plan_ofHand]
  cases plan t with
  | error fault => rfl
  | ok p =>
    simp only [Except.map, bind, Except.bind, Plan.points_leftHanded]
    cases (p.ofHand false).points with
    | error fault => rfl
    | ok points =>
      simp only [pure, Except.pure, Polyhedron.mirrored, Plan.ofHand, ThreadSpec.ofHand,
        faces_leftHanded]

/-- A thread of six sections that runs in and out over a whole turn each. -/
noncomputable def turningThread : ThreadSpec ℝ := ⟨2.0, 3.0, 1.0, 2.2, 4, 360.0, 360.0, false⟩

private theorem stepCount_turningThread : turningThread.stepCount = 6 := by
  have hcount : spread turningThread / turningThread.pitch * turningThread.segments = 6 := by
    norm_num [spread, turningThread]
  rw [ThreadSpec.stepCount, hcount, Scalar.truncate_eq_floor (by norm_num)]
  exact Int.floor_ofNat 6

private theorem leadInCount_turningThread : turningThread.leadInCount = 6 := by
  have hcount : turningThread.segments * turningThread.leadIn / 360 + 2 = 6 := by
    norm_num [turningThread]
  rw [ThreadSpec.leadInCount_eq, hcount, Scalar.truncate_eq_floor (by norm_num)]
  exact Int.floor_ofNat 6

/-- It can be made for either hand. -/
theorem shell_leftHanded_turningThread : ∃ right : Polyhedron ℝ,
    shell (turningThread.ofHand false) = .ok right ∧
      shell (turningThread.ofHand true) = .ok right.mirrored := by
  have hfits : Fits turningThread :=
    ⟨by norm_num [turningThread], by norm_num [turningThread], by norm_num [turningThread],
      by rw [stepCount_turningThread]; norm_num⟩
  have hmade := (shell_eq_ok_iff turningThread).mpr
    ⟨hfits, by rw [leadInCount_turningThread]; norm_num, rfl⟩
  have himage := shell_leftHanded turningThread
  have hright : shell (turningThread.ofHand false) = .ok (madeShell turningThread) := hmade
  rw [hright] at himage
  exact ⟨_, hright, himage⟩

end Thread

end SolidModel
