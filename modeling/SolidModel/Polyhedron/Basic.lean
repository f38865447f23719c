import SolidModel.Triangulation.EarClipping

/-!
# Polyhedra

A polyhedron is a sequence of points and a list of faces, each a cycle of positions in that
sequence, clockwise seen from outside. The type itself promises nothing about the faces: they
can be edited freely, and `validate` says whether they still are triangles and quads over the
points. A polyhedron also keeps the construction that made it.
-/

namespace SolidModel

variable {K : Type}

/-- A cycle of positions in a sequence of points. -/
abbrev Face := List Int

/-- The construction that made a polyhedron, with its measures. -/
inductive Procedure (K : Type) where
  | extrusion (height : K)
  | holedExtrusion (height : K) (holes : Nat)
  | loft (height : K)
  | cylinder (radius height : K) (segments : Int)
  | revolution (degrees : K) (segments : Int)
  | sweep (twist : K) (closed : Bool)
  | thread (minor major pitch length : K)
  | described (text : String)

/-- The construction in words. -/
def Procedure.text [NumberText K] : Procedure K → String
  | extrusion h => s!"linear_extrude(height={numberText h})"
  | holedExtrusion h n => s!"linear_extrude(height={numberText h}, holes={n})"
  | loft h => s!"loft(height={numberText h})"
  | cylinder r h n => s!"cylinder(r={numberText r}, h={numberText h}, segments={n})"
  | revolution degrees n => s!"rotate_extrude(degrees={numberText degrees}, segments={n})"
  | sweep twist closed => s!"sweep(twist={numberText twist}, closed={flagText closed})"
  | thread minor major pitch length =>
    s!"thread_mesh(d_min={numberText minor}, d_maj={numberText major}, " ++
      s!"pitch={numberText pitch}, length={numberText length})"
  | described text => text

/-- Points, faces over them, and the construction that made them. -/
structure Polyhedron (K : Type) where
  points : List (Point3 K)
  faces : List Face
  procedure : Option (Procedure K)

/-- What a construction made, with the remarks that came up. -/
structure Noted (α : Type) where
  value : α
  notices : List SliverNotice

namespace Face

/-- The face of a triangle, its positions shifted. -/
def ofTriangle (offset : Nat) (t : Triangle) : Face :=
  [((t.a + offset : Nat) : Int), ((t.b + offset : Nat) : Int), ((t.c + offset : Nat) : Int)]

/-- The directed edges around a face. -/
def edges (f : Face) : List (Int × Int) := Polyline.cyclicPairs f

/-- A quad cut along its first diagonal; any other face as it is. -/
def triangles : Face → List Face
  | [a, b, c, d] => [[a, b, c], [a, c, d]]
  | f => [f]

end Face

namespace Polyhedron

/-! ## Faces -/

/-- A face with three or four positions, all of them taken by points. -/
def checkFace (points index : Nat) (f : Face) : Except (Fault K) Unit := do
  if f.length ≠ 3 ∧ f.length ≠ 4 then throw (.faceSize index f.length)
  f.forM fun v => if 0 ≤ v ∧ v < points then .ok () else .error (.faceIndex index v points)

/-- Accepts a polyhedron all of whose faces are triangles or quads over its points. -/
def validate (p : Polyhedron K) : Except (Fault K) Unit :=
  p.faces.zipIdx.forM fun (f, index) => checkFace p.points.length index f

/-- The face at a position replaced. -/
def setFace (p : Polyhedron K) (i : Int) (f : Face) : Except (Fault K) (Polyhedron K) :=
  match position? p.faces.length i with
  | some k => .ok { p with faces := p.faces.set k f }
  | none => .error .noElementToReplace

/-- One more face. -/
def addFace (p : Polyhedron K) (f : Face) : Polyhedron K := { p with faces := p.faces ++ [f] }

/-- The face at a position taken away. -/
def dropFace (p : Polyhedron K) (i : Int) : Except (Fault K) (Polyhedron K) :=
  match position? p.faces.length i with
  | some k => .ok { p with faces := p.faces.eraseIdx k }
  | none => .error .noElementToReplace

/-- The faces with every quad cut into two triangles. -/
def triangles (p : Polyhedron K) : List Face := p.faces.flatMap Face.triangles

/-- A list cut into pieces of three; a rest of one or two is left out. -/
def threes {α : Type} : List α → List (List α)
  | a :: b :: c :: rest => [a, b, c] :: threes rest
  | _ => []

/-- The triangles as rows of three positions. Faces of one length are read in a row, so they
need not be triangles if their positions come out even; faces of several lengths have no rows. -/
def triangleRows (p : Polyhedron K) : Except (Fault K) (List Face) :=
  let tris := p.triangles
  let size := (tris.head?.map List.length).getD 0
  if tris.any (·.length != size) then .error (.unevenFaces tris.length)
  else if (tris.length * size) % 3 ≠ 0 then .error (.notTriples (tris.length * size))
  else .ok (threes tris.flatten)

/-- The triangles run counter-clockwise, as most other programs want them. -/
def counterClockwiseRows (p : Polyhedron K) : Except (Fault K) (List Face) :=
  p.triangleRows.map (·.map List.reverse)

/-- How many points and faces there are, and how they were made. -/
def text [NumberText K] (p : Polyhedron K) : String :=
  let made := (p.procedure.map Procedure.text).getD "None"
  s!"Polyhedron({p.points.length} points, {p.faces.length} faces, {made})"

/-! ## Moving -/

variable [Scalar K]

/-- Every point shifted. -/
def shifted (p : Polyhedron K) (delta : Point3 K) : Polyhedron K :=
  { p with points := Polyline.shifted p.points delta }

/-- Every point moved by a matrix. -/
def moved (p : Polyhedron K) (m : Matrix4 K) : Polyhedron K :=
  { p with points := Polyline.moved p.points m }

/-- Every point turned about an axis. -/
def rotate [Trig K] (p : Polyhedron K) (axis : Axis) (degrees : K) :
    Except (Fault K) (Polyhedron K) := do
  return { p with points := ← Polyline.rotatedAbout p.points axis degrees }

/-! ## Walls between rings -/

omit [Scalar K] in
/-- Quads that lead from one ring of points up to the next. -/
def walls (lower upper count : Nat) : List Face :=
  (List.range count).map fun i =>
    let j := (i + 1) % count
    [((lower + i : Nat) : Int), ((lower + j : Nat) : Int), ((upper + j : Nat) : Int),
      ((upper + i : Nat) : Int)]

/-- Quads between the rings of a revolved profile, which run the other way. -/
def revolvedWalls (lower upper count : Nat) : List Face :=
  (List.range count).map fun i =>
    let j := (i + 1) % count
    [((lower + i : Nat) : Int), ((upper + i : Nat) : Int), ((upper + j : Nat) : Int),
      ((lower + j : Nat) : Int)]

/-- The triangles of a cap as faces, positions shifted. -/
def cap (offset : Nat) (t : Triangulation) : List Face :=
  t.triangles.map (Face.ofTriangle offset)

end Polyhedron

end SolidModel
