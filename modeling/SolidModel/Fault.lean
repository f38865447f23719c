import SolidModel.Text.Shown

/-!
# Why a construction is refused

A `Fault` is a cause together with the values that show it. `Fault.kind` sorts the causes as a
caller may want to react to them, and `Fault.message` is the one place where they are worded.
-/

namespace SolidModel

/-- The sorts of causes. -/
inductive FaultKind where
  /-- An argument outside what the construction is defined for. -/
  | value
  /-- A polygon that has no triangulation of the promised kind. -/
  | triangulation
  /-- A quotient by zero. -/
  | division
  /-- A number too large for its new type. -/
  | overflow
  /-- A position that a sequence does not have. -/
  | index
  deriving DecidableEq

/-- The places of a matrix that are addressed by one index. -/
inductive MatrixAccess where
  | readRow
  | readColumn
  | writeRow
  | writeColumn
  deriving DecidableEq

/-- A cause for which a construction is refused, with the values that show it. -/
inductive Fault (K : Type) where
  -- numbers
  | divisionByZero
  | infiniteAngle
  | integerOfNaN
  | integerOfInfinity
  | integerTooLarge
  -- positions in sequences
  | noCoordinate
  | noElement
  | noElementToReplace
  -- points
  | zeroLength (vector : Position K)
  | projectedDirection
  -- matrices
  | notMatrix (value : Raw K)
  | notMatrixEntry (value : Raw K)
  | noEntryToRead (i j : Int)
  | noEntryToWrite (i j : Int)
  | noMatrixLine (access : MatrixAccess) (i : Int)
  | notMatrixLine (access : MatrixAccess) (items : List (Raw K))
  | notFactor (value : Raw K)
  | notFactorPoint (p : Position K)
  | singularMatrix
  | zeroAxis
  | notScaling
  | zeroScaling
  | eyeAtCenter (eye : Point3 K)
  /-- The second vector is missing where the vertical was taken by default. -/
  | directionAlongUp (direction : Point3 K) (up : Option (Point3 K))
  -- curves
  | curveSegments (segments : Int)
  | growingClosedChain
  | closingClosedChain
  -- profiles
  | arcDegrees (degrees : K)
  | arcSegments (segments : Int)
  | circleRadius (radius : K)
  | circleSegments (segments : Int)
  | polygonSides (sides : Int)
  | rectangleSides
  | rectangleRadius (radius width height : K)
  | starPoints (points : Int)
  | curvedStarPoints (points : Int)
  -- triangulations
  | tooFewPoints (points : Nat)
  | notClockwise
  | noEar (left : Nat)
  | tooFewLoopPoints (points : Nat)
  | noTriangles
  -- polyhedra
  | faceSize (face size : Nat)
  | faceIndex (face : Nat) (index : Int) (points : Nat)
  | unevenFaces (faces : Nat)
  | notTriples (entries : Nat)
  | extrusionPoints (points : Nat)
  | extrusionHeight (height : K)
  | tooFewHolePoints (points : Nat)
  | loftPoints (points : Nat)
  | loftLengths (lower upper : Nat)
  | loftHeight (height : K)
  | revolutionPoints (points : Nat)
  | revolutionDegrees (degrees : K)
  | revolutionSegments (segments : Int)
  | revolutionCrossesAxis (p : Point2 K)
  | sweepPoints (points : Nat)
  | sweepPathPoints (points : Nat)
  | sweepRepeatedPoint (index : Nat)
  | sweepRepeatedEnd
  | notPolyhedron (check : String)
  -- combinations
  | notCombination (name : String)
  | finalizedCombination
  | notSolid (value : Raw K)
  | noOperands (name : String)
  -- threads
  | threadPitch (pitch : K)
  | threadDiameters (major minor : K)
  | threadSegments (segments : Int)
  | threadLength (length pitch : K)

namespace Fault

variable {K : Type}

/-- The sort of a cause. -/
def kind : Fault K → FaultKind
  | divisionByZero => .division
  | integerOfInfinity | integerTooLarge => .overflow
  | noCoordinate | noElement | noElementToReplace => .index
  | notClockwise | noEar _ | noTriangles => .triangulation
  | _ => .value

variable [NumberText K]

/-- The vertical, where it was not given, is shown by whole coordinates. -/
def upText : Option (Point3 K) → String
  | some up => up.text
  | none => (⟨0, 0, 1⟩ : Point3 Int).text

/-- The words for a cause. -/
def message : Fault K → String
  | divisionByZero => "float division by zero"
  | infiniteAngle => "math domain error"
  | integerOfNaN => "cannot convert float NaN to integer"
  | integerOfInfinity => "cannot convert float infinity to integer"
  | integerTooLarge => "int too large to convert to float"
  | noCoordinate => "tuple index out of range"
  | noElement => "list index out of range"
  | noElementToReplace => "list assignment index out of range"
  | zeroLength v => s!"cannot normalize zero-length vector {v.text}"
  | projectedDirection => "cannot project a direction (w == 0) to a point"
  | notMatrix value => s!"bad thing used in attempt to initialize matrix: {value.shown}"
  | notMatrixEntry value => s!"bad element in matrix initialization: {value.shown}"
  | noEntryToRead i j => s!"bad index passed to get: {i},{j}"
  | noEntryToWrite i j => s!"bad index passed to set: {i},{j}"
  | noMatrixLine .readRow i => s!"bad row passed to getrow: {i}"
  | noMatrixLine .readColumn i => s!"bad column passed to getcol: {i}"
  | noMatrixLine .writeRow i => s!"bad row index passed to setrow: {i}"
  | noMatrixLine .writeColumn i => s!"bad column index passed to setcol: {i}"
  | notMatrixLine access items =>
    let name := match access with
      | .readRow => "getrow"
      | .readColumn => "getcol"
      | .writeRow => "setrow"
      | .writeColumn => "setcol"
    s!"bad non-vector passed to {name}: {(Raw.list items).shown}"
  | notFactor value => s!"bad thing passed to mul(): {value.shown}"
  | notFactorPoint p => s!"bad thing passed to mul(): {p.text}"
  | singularMatrix => "matrix is singular and cannot be inverted"
  | zeroAxis => "zero-length rotation axis not allowed"
  | notScaling => "bad scaling values passed to Scale"
  | zeroScaling => "cannot invert a zero scale"
  | eyeAtCenter eye => s!"look_at needs distinct eye and center points, got {eye.text}"
  | directionAlongUp direction up =>
    s!"direction {direction.text} is parallel to up vector {upText up}"
  | curveSegments n => s!"bezier curves need at least one segment, got {n}"
  | growingClosedChain => "cannot add a segment to a closed bezier chain"
  | closingClosedChain => "bezier chain is already closed"
  | arcDegrees degrees => s!"arc degrees must be in (0, 360], got {numberText degrees}"
  | arcSegments n => s!"arc needs at least one segment, got {n}"
  | circleRadius radius => s!"circle radius must be positive, got {numberText radius}"
  | circleSegments n => s!"circle needs at least 3 segments, got {n}"
  | polygonSides n => s!"polygon needs at least 3 sides, got {n}"
  | rectangleSides => "rounded_rect needs positive width and height"
  | rectangleRadius radius width height =>
    s!"rounded_rect radius {numberText radius} does not fit a " ++
      s!"{numberText width} x {numberText height} rectangle"
  | starPoints n => s!"star needs at least 2 points, got {n}"
  | curvedStarPoints n => s!"bezier_star needs at least 2 points, got {n}"
  | tooFewPoints n => s!"triangulation needs at least 3 points, got {n}"
  | notClockwise => "polygon is not wound clockwise"
  | noEar n => s!"no ear found with {n} points left; polygon is not simple"
  | tooFewLoopPoints n => s!"polygon loops need at least 3 points, got {n}"
  | noTriangles => "earcut produced no triangles"
  | faceSize face size => s!"face {face} has {size} indices, expected 3 or 4"
  | faceIndex face index points => s!"face {face} index {index} out of range for {points} points"
  | unevenFaces n =>
    "setting an array element with a sequence. The requested array has an inhomogeneous shape " ++
      s!"after 1 dimensions. The detected shape was ({n},) + inhomogeneous part."
  | notTriples n => s!"cannot reshape array of size {n} into shape (3)"
  | extrusionPoints n => s!"linear_extrude needs at least 3 points, got {n}"
  | extrusionHeight h => s!"linear_extrude height must be positive, got {numberText h}"
  | tooFewHolePoints n => s!"hole loops need at least 3 points, got {n}"
  | loftPoints n => s!"loft needs at least 3 points, got {n}"
  | loftLengths lower upper => s!"loft profiles differ in length: {lower} != {upper}"
  | loftHeight h => s!"loft height must be positive, got {numberText h}"
  | revolutionPoints n => s!"rotate_extrude needs at least 3 points, got {n}"
  | revolutionDegrees degrees =>
    s!"rotate_extrude degrees must be in (0, 360], got {numberText degrees}"
  | revolutionSegments n => s!"rotate_extrude needs at least 3 segments, got {n}"
  | revolutionCrossesAxis p => s!"rotate_extrude profile crosses the Z axis at {p.text}"
  | sweepPoints n => s!"sweep needs a profile of at least 3 points, got {n}"
  | sweepPathPoints n => s!"sweep path too short: {n} points"
  | sweepRepeatedPoint k => s!"sweep path has duplicate points at index {k}"
  | sweepRepeatedEnd => "closed sweep path repeats its first point at the end"
  | notPolyhedron check => s!"{check} expects a Polyhedron"
  | notCombination name => s!"invalid type passed to Boolean(): {name}"
  | finalizedCombination => "cannot add operands to a finalized Boolean"
  | notSolid value => s!"not a Polyhedron or Boolean instance: {value.shown}"
  | noOperands name => s!"Boolean({name}) has no operands"
  | threadPitch pitch => s!"thread pitch must be positive, got {numberText pitch}"
  | threadDiameters major minor =>
    s!"major diameter {numberText major} must exceed minor diameter {numberText minor}"
  | threadSegments n => s!"thread needs at least 3 segments per turn, got {n}"
  | threadLength length pitch =>
    s!"thread of length {numberText length} is too short for pitch {numberText pitch}"

end Fault

end SolidModel
