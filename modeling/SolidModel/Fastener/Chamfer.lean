import SolidModel.Assembly
import SolidModel.Polyhedron.Revolution
import SolidModel.Profile

/-!
# Chamfer cutters

Rings that take the edge off a cylinder when they are subtracted from it.
-/

namespace SolidModel

variable {K : Type} [Scalar K] [Trig K]

namespace Chamfer

/-- The ring that bevels the outer edge of a circle. -/
def circleCutter (size oversize radius degrees : K) (segments : Int) :
    Except (Fault K) (Noted (Polyhedron K)) := do
  let outline ← Polyline.rotated (Profile.chamfer size oversize) 90.0
  let offset : Point2 K := ⟨radius + size / 2.0 + oversize / 2.0, -oversize⟩
  Polyhedron.rotateExtrude (Polyline.shifted outline offset) degrees segments

/-- The rings that bevel the lower and the upper edge of a cylinder. -/
def cylinderCutter (size oversize radius height : K) (segments : Int) (center : Bool := false) :
    Except (Fault K) (Noted (Combination K)) := do
  let lower ← circleCutter size oversize radius 360.0 segments
  let upper ← circleCutter size oversize radius 360.0 segments
  let turned ← upper.value.rotate .x 180.0
  let raised := turned.shifted ⟨0.0, 0.0, height⟩
  let pair :=
    (Combination.ofParts .union [.polyhedron lower.value, .polyhedron raised]).finalize.state
  return ⟨if center then pair.shifted ⟨0.0, 0.0, -height / 2.0⟩ else pair,
    lower.notices ++ upper.notices⟩

end Chamfer

end SolidModel
