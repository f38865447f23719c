import Mathlib
import SolidModel.Proofs.EarClipping.Area
import SolidModel.Proofs.Surface.Holes

/-!
# Holes may run either way

Before anything else is done with them, the loops of the holes are brought to one direction, and
from then on only these loops are used: for the points, for the walls and for the cut. A loop and
its reverse come to the same loop, since their areas are opposite; only a loop without area has no
direction to be brought to. So whether a hole is given the one way or the other makes no difference,
whatever cuts the region.
-/

namespace SolidModel

variable {K : Type} [Field K] [LinearOrder K] [FloorRing K]

namespace Polyline

/-- The loops at some positions run the other way. -/
def reversedAt {α : Type} (chosen : Finset ℕ) (loops : List (List α)) : List (List α) :=
  loops.mapIdx fun i loop ↦ if i ∈ chosen then loop.reverse else loop

theorem signedArea_reverse (loop : List (Point2 K)) :
    signedArea loop.reverse = -signedArea loop := by
  rw [signedArea_eq, doubledArea_reverse, neg_div, ← signedArea_eq]

end Polyline

namespace Polyhedron

open Polyline

variable {hole : List (Point2 K)} {holes holes' : List (List (Point2 K))}

private theorem holeLoop_reverse [IsStrictOrderedRing K] (h : signedArea hole ≠ 0) :
    holeLoop hole.reverse = holeLoop hole := by
  simp only [holeLoop, signedArea_reverse, List.length_reverse, List.reverse_reverse,
    Scalar.zero_eq, neg_lt_zero]
  rcases h.lt_or_gt with hneg | hpos
  · rw [if_pos hneg, if_neg hneg.not_gt]
  · rw [if_pos hpos, if_neg hpos.not_gt]

private theorem mapM_holeLoop_reversedAt [IsStrictOrderedRing K]
    (h : ∀ hole ∈ holes, signedArea hole ≠ 0) (chosen : Finset ℕ) :
    (reversedAt chosen holes).mapM holeLoop = holes.mapM holeLoop := by
  refine Outcome.mapM_mapIdx fun i hole hhole ↦ ?_
  split
  · exact holeLoop_reverse (h hole hhole)
  · rfl

/-- Of the holes, an extrusion sees no more than the loops that they are run as. -/
private theorem linearExtrudeBy_congr (cut : RegionCutter K) (outline : List (Point2 K))
    (height : K) (hlength : holes.length = holes'.length)
    (h : holes.mapM holeLoop = holes'.mapM holeLoop) :
    linearExtrudeBy cut outline height holes = linearExtrudeBy cut outline height holes' := by
  cases holes with
  | nil => rw [List.length_eq_zero_iff.mp hlength.symm]
  | cons hole rest =>
    obtain ⟨hole', rest', rfl⟩ := List.exists_cons_of_length_eq_add_one hlength.symm
    simp only [linearExtrudeBy, holedPrism, h]

/-- **Holes may run either way.** Whichever of them are reversed, an extrusion makes the same solid
or is refused for the same reason, if every hole has an area. -/
theorem linearExtrudeBy_reversedAt [IsStrictOrderedRing K] (cut : RegionCutter K)
    (outline : List (Point2 K)) (height : K) (holes : List (List (Point2 K)))
    (h : ∀ hole ∈ holes, signedArea hole ≠ 0) (chosen : Finset ℕ) :
    linearExtrudeBy cut outline height (reversedAt chosen holes)
      = linearExtrudeBy cut outline height holes :=
  linearExtrudeBy_congr cut outline height List.length_mapIdx (mapM_holeLoop_reversedAt h chosen)

/-- The plate with a slot that runs clockwise is the plate with the slot run the other way. -/
theorem linearExtrudeBy_reversedAt_plate :
    signedArea slot = -4 ∧ reversedAt {0} [slot] = [slotReversed] ∧
      ∃ made, linearExtrude plate 1 [slot] = .ok made ∧
        linearExtrude plate 1 [slotReversed] = .ok made := by
  have harea : signedArea slot = -4 := by decide +kernel
  have hreversed : reversedAt {0} [slot] = [slotReversed] := by decide
  obtain ⟨made, hmade⟩ := Outcome.exists_eq_ok_of_isSome
    (e := linearExtrude plate 1 [slot]) (by decide +kernel)
  refine ⟨harea, hreversed, made, hmade, ?_⟩
  rw [← hmade, ← hreversed]
  refine linearExtrudeBy_reversedAt _ plate 1 [slot] ?_ {0}
  rw [List.forall_mem_singleton, harea]
  norm_num

end Polyhedron

end SolidModel
