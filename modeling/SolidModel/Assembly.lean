import SolidModel.Polyhedron.Closedness

/-!
# Solids combined

Solids are combined by union, intersection and difference without being computed: a combination
only records its operation and its parts, which are polyhedra or combinations again. A part is
taken over as it is at that moment. Once a combination is finalized its parts can still be moved,
but none can be added.
-/

namespace SolidModel

/-- How the parts of a combination are put together. -/
inductive Operation where
  | union
  | intersection
  | difference
  deriving DecidableEq

namespace Operation

/-- The name of an operation. -/
def name : Operation → String
  | union => "union"
  | intersection => "intersection"
  | difference => "difference"

/-- The operation of a name. -/
def ofName {K : Type} (name : String) : Except (Fault K) Operation :=
  if name = "union" then .ok union
  else if name = "intersection" then .ok intersection
  else if name = "difference" then .ok difference
  else .error (.notCombination name)

@[simp] theorem ofName_name {K : Type} (o : Operation) :
    (ofName o.name : Except (Fault K) Operation) = .ok o := by
  cases o <;> rfl

end Operation

/-- A polyhedron, or a combination of solids. -/
inductive Solid (K : Type) where
  | polyhedron (p : Polyhedron K)
  | combination (operation : Operation) (finalized : Bool) (parts : List (Solid K))

namespace Solid

variable {K : Type}

/-! ## The leaves -/

mutual

/-- The polyhedra of a solid from left to right. -/
def leaves : Solid K → List (Polyhedron K)
  | .polyhedron p => [p]
  | .combination _ _ parts => leavesOf parts

/-- The polyhedra of several solids. -/
def leavesOf : List (Solid K) → List (Polyhedron K)
  | [] => []
  | s :: rest => s.leaves ++ leavesOf rest

end

mutual

/-- The solid with every polyhedron changed, and nothing else. -/
def mapLeaves (f : Polyhedron K → Polyhedron K) : Solid K → Solid K
  | .polyhedron p => .polyhedron (f p)
  | .combination operation finalized parts =>
    .combination operation finalized (mapLeavesOf f parts)

/-- Several solids with every polyhedron changed. -/
def mapLeavesOf (f : Polyhedron K → Polyhedron K) : List (Solid K) → List (Solid K)
  | [] => []
  | s :: rest => s.mapLeaves f :: mapLeavesOf f rest

end

mutual

/-- The solid with its leaves replaced from left to right, and the replacements left over; where
there are too few, leaves stay. -/
def replaceLeaves : Solid K → List (Polyhedron K) → Solid K × List (Polyhedron K)
  | s@(.polyhedron _), [] => (s, [])
  | .polyhedron _, q :: rest => (.polyhedron q, rest)
  | .combination operation finalized parts, replacements =>
    let (parts, rest) := replaceLeavesOf parts replacements
    (.combination operation finalized parts, rest)

/-- Several solids with their leaves replaced from left to right. -/
def replaceLeavesOf : List (Solid K) → List (Polyhedron K) →
    List (Solid K) × List (Polyhedron K)
  | [], replacements => ([], replacements)
  | s :: others, replacements =>
    let (s, rest) := s.replaceLeaves replacements
    let (others, rest) := replaceLeavesOf others rest
    (s :: others, rest)

end

mutual

/-- The solid in words: a polyhedron, or an operation and its parts. -/
def text [NumberText K] : Solid K → String
  | .polyhedron p => p.text
  | .combination operation _ parts =>
    "Boolean(" ++ operation.name ++ "," ++ Text.bracketed (textsOf parts) ++ ")"

/-- Several solids in words. -/
def textsOf [NumberText K] : List (Solid K) → List String
  | [] => []
  | s :: rest => s.text :: textsOf rest

end

theorem leavesOf_eq_flatMap (parts : List (Solid K)) : leavesOf parts = parts.flatMap leaves := by
  induction parts with
  | nil => rfl
  | cons s rest ih => simp [leavesOf, ih]

theorem mapLeavesOf_eq_map (f : Polyhedron K → Polyhedron K) (parts : List (Solid K)) :
    mapLeavesOf f parts = parts.map (mapLeaves f) := by
  induction parts with
  | nil => rfl
  | cons s rest ih => simp [mapLeavesOf, ih]

mutual

/-- The leaves of a changed solid are its changed leaves in the same order. -/
@[simp] theorem leaves_mapLeaves (f : Polyhedron K → Polyhedron K) (s : Solid K) :
    (s.mapLeaves f).leaves = s.leaves.map f := by
  match s with
  | .polyhedron p => rfl
  | .combination _ _ parts => exact leavesOf_mapLeavesOf f parts

theorem leavesOf_mapLeavesOf (f : Polyhedron K → Polyhedron K) (parts : List (Solid K)) :
    leavesOf (mapLeavesOf f parts) = (leavesOf parts).map f := by
  match parts with
  | [] => rfl
  | s :: rest => simp [mapLeavesOf, leavesOf, leaves_mapLeaves f s, leavesOf_mapLeavesOf f rest]

end

/-! ## Moving -/

/-- Every polyhedron shifted. -/
def shifted [Scalar K] (s : Solid K) (delta : Point3 K) : Solid K :=
  s.mapLeaves (·.shifted delta)

/-- Every polyhedron moved by a matrix. -/
def moved [Scalar K] (s : Solid K) (m : Matrix4 K) : Solid K :=
  s.mapLeaves (·.moved m)

/-- A check that only a polyhedron can undergo. -/
def check (name : String) (f : Polyhedron K → CheckResult) :
    Solid K → Except (Fault K) CheckResult
  | .polyhedron p => .ok (f p)
  | .combination _ _ _ => .error (.notPolyhedron name)

end Solid

/-! ## Combinations on their own -/

/-- A combination of solids, to which parts are added until it is finalized. -/
structure Combination (K : Type) where
  operation : Operation
  finalized : Bool
  parts : List (Solid K)

namespace Combination

variable {K : Type}

/-- The combination of the given parts, open to more. -/
def ofParts (operation : Operation) (parts : List (Solid K)) : Combination K :=
  ⟨operation, false, parts⟩

/-- The combination as a solid. -/
def toSolid (c : Combination K) : Solid K := .combination c.operation c.finalized c.parts

/-- The polyhedra from left to right. -/
def leaves (c : Combination K) : List (Polyhedron K) := c.toSolid.leaves

/-- One more part, unless the combination is finalized. -/
def add (c : Combination K) (part : Solid K) : Transition K (Combination K) :=
  if c.finalized then .stopped c .finalizedCombination
  else .done { c with parts := c.parts ++ [part] }

/-- An unchecked value is no part; that the combination is finalized is noticed first. -/
def addRaw (c : Combination K) (value : Raw K) : Transition K (Combination K) :=
  if c.finalized then .stopped c .finalizedCombination else .stopped c (.notSolid value)

/-- Closes the combination to further parts; it needs at least one. -/
def finalize (c : Combination K) : Transition K (Combination K) :=
  if c.parts.isEmpty then .stopped c (.noOperands c.operation.name)
  else .done { c with finalized := true }

/-- Every polyhedron shifted. -/
def shifted [Scalar K] (c : Combination K) (delta : Point3 K) : Combination K :=
  { c with parts := c.parts.map (·.shifted delta) }

/-- Every polyhedron moved by a matrix. -/
def moved [Scalar K] (c : Combination K) (m : Matrix4 K) : Combination K :=
  { c with parts := c.parts.map (·.moved m) }

@[simp] theorem leaves_toSolid (c : Combination K) : c.toSolid.leaves = c.leaves := rfl

@[simp] theorem leaves_ofParts (operation : Operation) (parts : List (Solid K)) :
    (ofParts operation parts).leaves = Solid.leavesOf parts := rfl

/-- Whether it can be closed to further parts or not, a combination keeps the parts it has. -/
@[simp] theorem leaves_finalize (c : Combination K) : c.finalize.state.leaves = c.leaves := by
  rw [finalize]
  split <;> rfl

@[simp] theorem leaves_shifted [Scalar K] (c : Combination K) (delta : Point3 K) :
    (c.shifted delta).leaves = c.leaves.map (·.shifted delta) := by
  have h := Solid.leavesOf_mapLeavesOf (·.shifted delta) c.parts
  rwa [Solid.mapLeavesOf_eq_map] at h

end Combination

end SolidModel
