import SolidModel.Assembly
import SolidModel.Polyhedron.Extrusion
import SolidModel.Thread.Shell

/-!
# Threaded cylinders

A thread's shell together with the core that it winds around. The core is a little thicker than
the minor diameter, so that it overlaps the shell.
-/

namespace SolidModel

variable {K : Type} [Scalar K] [Trig K]

namespace Thread

omit [Trig K] in
/-- How much the radius of the core exceeds that of the thread's root. -/
def coreOversize : K := 1.0e-4

/-- The shell of a thread united with its core, standing on the horizontal plane or, centred,
half below it. -/
def threadedCylinder (t : ThreadSpec K) (center : Bool := false) :
    Except (Fault K) (Noted (Combination K)) := do
  let thread ← shell t
  let core ← Polyhedron.cylinder (t.minor / 2.0 + coreOversize) t.length t.segments
  let placed (p : Polyhedron K) : Solid K :=
    .polyhedron (if center then p.shifted ⟨0.0, 0.0, -t.length / 2.0⟩ else p)
  return ⟨(Combination.ofParts .union [placed thread, placed core.value]).finalize.state,
    core.notices⟩

end Thread

end SolidModel
