import SolidModel.Assembly
import SolidModel.Index

/-!
# Solids under names

A workbench holds solids and names for them. A name may also stand for a part of a solid, in its
place: changing it under that name changes the solid it belongs to. Adding a solid to a
combination, in contrast, takes it over as it is, and later changes under its own name do not
reach the combination.

Solids are never taken away and parts are never reordered, so a name stays good: it is the
number of a solid and the positions that lead to the part. Giving a name again makes it stand for
the new solid; other names keep what they stood for.
-/

namespace SolidModel

namespace Solid

variable {K : Type}

/-- The part that a path of positions leads to. -/
def part? : Solid K → List Nat → Option (Solid K)
  | s, [] => some s
  | .polyhedron _, _ :: _ => none
  | .combination _ _ parts, i :: rest =>
    match parts[i]? with
    | some s => s.part? rest
    | none => none

/-- The solid with the part that a path leads to replaced; a path that leads nowhere changes
nothing. -/
def replacePart (part : Solid K) : List Nat → Solid K → Solid K
  | [], _ => part
  | _ :: _, .polyhedron p => .polyhedron p
  | i :: rest, .combination operation finalized parts =>
    .combination operation finalized (parts.modify i (replacePart part rest))

theorem part?_replacePart {s t : Solid K} {path : List Nat} (part : Solid K)
    (h : s.part? path = some t) : (replacePart part path s).part? path = some part := by
  induction path generalizing s with
  | nil => rfl
  | cons i rest ih =>
    match s with
    | .polyhedron _ => simp [part?] at h
    | .combination _ _ parts =>
      simp only [part?] at h
      split at h
      · rename_i next found
        simp [replacePart, part?, found, ih h]
      · cases h

/-- The direct part at a position counted from either end. -/
def elementAt (s : Solid K) (i : Int) : Except (Fault K) (Nat × Solid K) :=
  match s with
  | .polyhedron _ => .error .noElement
  | .combination _ _ parts =>
    match (position? parts.length i).bind fun k => (parts[k]?).map (k, ·) with
    | some found => .ok found
    | none => .error .noElement

/-- The polyhedron at a position among the leaves, counted from either end. -/
def leafAt (s : Solid K) (i : Int) : Except (Fault K) (Nat × Polyhedron K) :=
  let leaves := s.leaves
  match (position? leaves.length i).bind fun k => (leaves[k]?).map (k, ·) with
  | some found => .ok found
  | none => .error .noElement

/-- The solid with one leaf replaced. -/
def replaceLeaf (s : Solid K) (i : Nat) (p : Polyhedron K) : Solid K :=
  (s.replaceLeaves (s.leaves.set i p)).1

end Solid

/-- What a name stands for: a solid, or the part of it that a path leads to. -/
structure Reference where
  solid : Nat
  path : List Nat
  deriving DecidableEq

/-- Solids, and names for them; the latest use of a name comes first. -/
structure Workbench (K : Type) where
  solids : List (Solid K)
  names : List (String × Reference)

namespace Workbench

variable {K : Type}

/-- Nothing on the bench. -/
def empty : Workbench K := ⟨[], []⟩

/-- What a name stands for. -/
def reference? (w : Workbench K) (name : String) : Option Reference := w.names.lookup name

/-- The solid or part under a name. -/
def solid? (w : Workbench K) (name : String) : Option (Solid K) := do
  let r ← w.reference? name
  (← w.solids[r.solid]?).part? r.path

/-- A solid put on the bench under a name. -/
def define (w : Workbench K) (name : String) (s : Solid K) : Workbench K :=
  ⟨w.solids ++ [s], (name, ⟨w.solids.length, []⟩) :: w.names⟩

@[simp] theorem solid?_define_self (w : Workbench K) (name : String) (s : Solid K) :
    (w.define name s).solid? name = some s := by
  simp [solid?, reference?, define, Solid.part?]

/-- The solid or part under a name changed in its place. -/
def replace (w : Workbench K) (name : String) (s : Solid K) : Workbench K :=
  match w.reference? name with
  | none => w
  | some r => { w with solids := w.solids.modify r.solid (Solid.replacePart s r.path) }

/-- A name for the direct part at a position of what another name stands for. -/
def pick (w : Workbench K) (name whole : String) (i : Int) : Except (Fault K) (Workbench K) := do
  match w.reference? whole, w.solid? whole with
  | some r, some s =>
    let (k, _) ← s.elementAt i
    return { w with names := (name, { r with path := r.path ++ [k] }) :: w.names }
  | _, _ => throw .noElement

end Workbench

end SolidModel
