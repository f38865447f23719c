import SolidModel.Fastener.Chamfer
import SolidModel.Fastener.Metric
import SolidModel.Fastener.Threaded

/-!
# Metric fasteners

Rods, taps, bolts and nuts of the metric sizes, as combinations of solids. Nothing is cut yet: a
nut, say, is the difference of a hexagonal blank and a tap.
-/

namespace SolidModel

variable {K : Type} [Scalar K] [Trig K]

namespace Fastener

/-- A rod with an external thread, standing on the horizontal plane. -/
def threadedRod (m : Int) (length : K) (segments : Int) (leadIn : K := 0.0) (leadOut : K := 0.0)
    (leftHand : Bool := false) (center : Bool := false) :
    Except (Fault K) (Noted (Combination K)) :=
  let row : MetricThread K := .ofSize m
  let minor := Thread.minorDiameter row.externalMajor row.pitch
  Thread.threadedCylinder
    ⟨minor, row.externalMajor, row.pitch, length, segments, leadIn, leadOut, leftHand⟩ center

/-- A cutter for a threaded hole, as wide as an internal thread. -/
def tap (m : Int) (length : K) (segments : Int) (leftHand : Bool := false)
    (center : Bool := false) : Except (Fault K) (Noted (Combination K)) :=
  let row : MetricThread K := .ofSize m
  let minor := Thread.minorDiameter row.internalMajor row.pitch
  Thread.threadedCylinder
    ⟨minor, row.internalMajor, row.pitch, length, segments, 0.0, 0.0, leftHand⟩ center

/-- The radius at which the chamfer of a head starts. -/
def headChamferRadius (width : K) : K :=
  let a := 0.25 * width
  let b := 0.5 * width
  Trig.sqrt (a * a + b * b)

/-- A hexagonal prism whose sides are `width` apart. -/
def hexBlank (width height : K) : Except (Fault K) (Noted (Polyhedron K)) := do
  Polyhedron.linearExtrude (← Profile.circumscribedPolygon 6 (width / 2.0)) height

/-- The cutters for the edges of a hexagonal blank. -/
def hexChamfer (row : MetricThread K) (height : K) (segments : Int) :
    Except (Fault K) (Noted (Combination K)) :=
  Chamfer.cylinderCutter row.chamferSize 1.0 (headChamferRadius row.nutWidth) height segments

/-- A bolt with its hexagonal head on the horizontal plane and its thread above; the thread runs
out toward the free end over the angle `leadIn`. -/
def hexBolt (m : Int) (length headHeight : K) (segments : Int) (leadIn : K := 0.0)
    (chamfered : Bool := false) (leftHand : Bool := false) (center : Bool := false) :
    Except (Fault K) (Noted (Combination K)) := do
  let row : MetricThread K := .ofSize m
  let rod ← threadedRod m length segments 0.0 leadIn leftHand
  let raised := rod.value.shifted ⟨0.0, 0.0, headHeight⟩
  let blank ← hexBlank row.nutWidth headHeight
  let head : Noted (Solid K) ←
    if chamfered then do
      let cutters ← hexChamfer row headHeight segments
      let cut := Combination.ofParts .difference
        [.polyhedron blank.value, cutters.value.toSolid]
      pure ⟨cut.finalize.state.toSolid, cutters.notices⟩
    else pure ⟨.polyhedron blank.value, []⟩
  let bolt := (Combination.ofParts .union [raised.toSolid, head.value]).finalize.state
  return ⟨if center then bolt.shifted ⟨0.0, 0.0, -(headHeight + length) / 2.0⟩ else bolt,
    rod.notices ++ blank.notices ++ head.notices⟩

/-- A hexagonal nut. The tap overshoots both sides, so that no skin is left. -/
def hexNut (m : Int) (height : K) (segments : Int) (chamfered : Bool := false)
    (leftHand : Bool := false) (center : Bool := false) :
    Except (Fault K) (Noted (Combination K)) := do
  let row : MetricThread K := .ofSize m
  let cutter ← tap m (height + 20.0) segments leftHand
  let lowered := cutter.value.shifted ⟨0.0, 0.0, -10.0⟩
  let blank ← hexBlank row.nutWidth height
  let chamfer : Noted (List (Solid K)) ←
    if chamfered then do
      let cutters ← hexChamfer row height segments
      pure ⟨[cutters.value.toSolid], cutters.notices⟩
    else pure ⟨[], []⟩
  let parts := [.polyhedron blank.value, lowered.toSolid] ++ chamfer.value
  let nut := (Combination.ofParts .difference parts).finalize.state
  return ⟨if center then nut.shifted ⟨0.0, 0.0, -height / 2.0⟩ else nut,
    cutter.notices ++ blank.notices ++ chamfer.notices⟩

end Fastener

end SolidModel
