import SolidModel.Polyhedron.Basic
import SolidModel.Tally

/-!
# Is the surface closed?

Two checks on the edges of the faces. A polyhedron is *watertight* if every edge, taken without
its direction, is passed twice, and *oriented* if every directed edge is passed once and its
reverse once. Both say what is wrong, naming edges in the order of their first occurrence.
-/

namespace SolidModel

/-- What a check found: the polyhedron passes, or remarks on what is wrong. -/
structure CheckResult where
  ok : Bool
  remarks : List String
  deriving DecidableEq

namespace Face

/-- An edge without its direction: the smaller position comes first. -/
def undirected (e : Int × Int) : Int × Int := if e.1 < e.2 then e else e.swap

/-- Edges as pairs in a list. -/
def edgesText (edges : List (Int × Int)) : String :=
  Text.bracketed (edges.map fun (a, b) => s!"({a}, {b})")

end Face

namespace Polyhedron

variable {K : Type}

/-- The directed edges of all faces in order. -/
def edges (p : Polyhedron K) : List (Int × Int) := p.faces.flatMap Face.edges

/-- Every edge is passed exactly twice, and there are edges. -/
def watertight (p : Polyhedron K) : CheckResult :=
  let tally := Tally.ofList (p.edges.map Face.undirected)
  let boundary := tally.kinds.filter fun e => tally.count e == 1
  let crowded := tally.kinds.filter fun e => decide (2 < tally.count e)
  { ok := !tally.kinds.isEmpty && boundary.isEmpty && crowded.isEmpty
    remarks :=
      (if tally.kinds.isEmpty then ["mesh has no faces"] else []) ++
      (if boundary.isEmpty then [] else [s!"{boundary.length} boundary edges detected"]) ++
      (if crowded.isEmpty then []
        else ["edges with multiplicity >2: " ++ Face.edgesText crowded]) }

/-- Every directed edge is passed once and so is its reverse. -/
def oriented (p : Polyhedron K) : CheckResult :=
  let tally := Tally.ofList p.edges
  let repeated := tally.kinds.filter fun e => decide (1 < tally.count e)
  let unmatched := tally.kinds.filter fun e => tally.count e.swap == 0
  { ok := repeated.isEmpty && unmatched.isEmpty
    remarks :=
      (if repeated.isEmpty then []
        else ["directed edges used more than once: " ++ Face.edgesText (repeated.take 10)]) ++
      (if unmatched.isEmpty then []
        else [s!"{unmatched.length} edges without a reversed partner"]) }

end Polyhedron

end SolidModel
