import Mathlib
import SolidModel.Proofs.Matrix4.Table

/-!
# Runs of operations on matrices

Matrices are objects that change: they are made, copied, written to, flagged, multiplied and read, in
any order, and some of these operations are refused. Here such a run is defined once, for any
`Representation` of the objects. One representation are the matrices of `Matrix4`, which look through
their flag in each operation on its own. The other one are sheets, which hold a plain table of entries
and know nothing of storage: there, giving a sheet another flag transposes its table.

Seeing a matrix as the sheet of its table respects every single operation, so it respects whole runs:
all answers are the same, and so are the tables in the end.
-/

namespace SolidModel

namespace Matrix4

variable {K O P : Type}

/-! ## Operations and runs -/

/-- A change of one matrix. -/
inductive Change (K : Type) where
  | entry (i j : ℤ) (value : Raw K)
  | row (i : ℤ) (values : List (Raw K))
  | column (j : ℤ) (values : List (Raw K))
  | flag (flag : Bool)

/-- What can be read from one matrix. -/
inductive Query where
  | entry (i j : ℤ)
  | row (i : ℤ)
  | column (j : ℤ)
  | rows

/-- The other side of a product or a comparison, where matrices are given by an `O`. -/
inductive Operand (K O : Type) where
  | matrix (o : O)
  | point (p : Position K)
  | value (x : Raw K)

/-- What a product is, where matrices are given by an `O`. -/
inductive Image (K O : Type) where
  | matrix (o : O)
  | homogeneous (p : Point4 K)
  | direction (p : Point3 K)

/-- An operation on matrices that go by their numbers. -/
inductive Call (K : Type) where
  | make (value : Raw K) (flag : Bool)
  | copy (m : ℕ) (flag : Bool)
  | transpose (m : ℕ)
  | times (m : ℕ) (x : Operand K ℕ)
  | change (m : ℕ) (c : Change K)
  | read (m : ℕ) (q : Query)
  | agrees (m : ℕ) (x : Operand K ℕ)

/-- What an operation that is not refused answers. -/
inductive Answer (K : Type) where
  | done
  | number (x : K)
  | line (p : Point4 K)
  | lines (ps : List (Point4 K))
  | homogeneous (p : Point4 K)
  | direction (p : Point3 K)
  | truth (b : Bool)

/-- The matrix operations on objects of some type. Making, reading and multiplying may be refused; a
change that is refused may already have done part of its work. -/
structure Representation (K O : Type) where
  make : Raw K → Bool → Option O
  copy : O → Bool → O
  transpose : O → O
  times : O → Operand K O → Option (Image K O)
  change : O → Change K → O × Bool
  read : O → Query → Option (Answer K)
  agrees : O → Operand K O → Bool

namespace Operand

def map (f : O → P) : Operand K O → Operand K P
  | matrix o => .matrix (f o)
  | point p => .point p
  | value x => .value x

/-- The operand with the object that has its number, if there is one. -/
def of? (objects : List O) : Operand K ℕ → Option (Operand K O)
  | matrix n => objects[n]?.map .matrix
  | point p => some (.point p)
  | value x => some (.value x)

end Operand

namespace Image

def map (f : O → P) : Image K O → Image K P
  | matrix o => .matrix (f o)
  | homogeneous p => .homogeneous p
  | direction p => .direction p

/-- A matrix becomes a new object, a point is the answer. -/
def kept (objects : List O) : Option (Image K O) → List O × Option (Answer K)
  | some (matrix o) => (objects ++ [o], some .done)
  | some (homogeneous p) => (objects, some (.homogeneous p))
  | some (direction p) => (objects, some (.direction p))
  | none => (objects, none)

end Image

namespace Representation

variable (R : Representation K O)

/-- One operation: the objects afterwards, and the answer unless it is refused. -/
def perform (objects : List O) : Call K → List O × Option (Answer K)
  | .make value flag => Image.kept objects ((R.make value flag).map .matrix)
  | .copy m flag => Image.kept objects (objects[m]?.map fun o ↦ .matrix (R.copy o flag))
  | .transpose m => Image.kept objects (objects[m]?.map fun o ↦ .matrix (R.transpose o))
  | .times m x => Image.kept objects (objects[m]?.bind fun o ↦ (x.of? objects).bind (R.times o))
  | .change m c =>
    match objects[m]? with
    | some o => (objects.set m (R.change o c).1, if (R.change o c).2 then some .done else none)
    | none => (objects, none)
  | .read m q => (objects, objects[m]?.bind (R.read · q))
  | .agrees m x =>
    (objects, objects[m]?.bind fun o ↦ (x.of? objects).map fun x ↦ .truth (R.agrees o x))

/-- Operations in a row: the objects in the end, and all answers. -/
def run (objects : List O) : List (Call K) → List O × List (Option (Answer K))
  | [] => (objects, [])
  | call :: calls =>
    let (after, answer) := R.perform objects call
    let (final, answers) := run after calls
    (final, answer :: answers)

end Representation

/-! ## Views that respect the operations -/

/-- Seen through `view`, each operation of `R` is the one of `S`. -/
structure Respects (view : O → P) (R : Representation K O) (S : Representation K P) : Prop where
  make : ∀ value flag, S.make value flag = (R.make value flag).map view
  copy : ∀ o flag, S.copy (view o) flag = view (R.copy o flag)
  transpose : ∀ o, S.transpose (view o) = view (R.transpose o)
  times : ∀ o x, S.times (view o) (x.map view) = (R.times o x).map (·.map view)
  change : ∀ o c, S.change (view o) c = (view (R.change o c).1, (R.change o c).2)
  read : ∀ o q, S.read (view o) q = R.read o q
  agrees : ∀ o x, S.agrees (view o) (x.map view) = R.agrees o x

variable {view : O → P} {R : Representation K O} {S : Representation K P}

theorem Operand.of?_map (x : Operand K ℕ) (objects : List O) :
    x.of? (objects.map view) = (x.of? objects).map (·.map view) := by
  cases x with
  | matrix n => simp [of?, map, Function.comp_def]
  | point p => rfl
  | value x => rfl

theorem Image.kept_map (objects : List O) (image : Option (Image K O)) :
    kept (objects.map view) (image.map (·.map view)) = (kept objects image).map (·.map view) id := by
  match image with
  | none => rfl
  | some (.homogeneous _) => rfl
  | some (.direction _) => rfl
  | some (.matrix _) => simp [kept, map]

theorem Respects.perform (h : Respects view R S) (objects : List O) (call : Call K) :
    S.perform (objects.map view) call = (R.perform objects call).map (·.map view) id := by
  cases call with
  | make value flag =>
    simp only [Representation.perform, ← Image.kept_map, h.make, Option.map_map]
    rfl
  | copy m flag =>
    simp only [Representation.perform, ← Image.kept_map, List.getElem?_map, Option.map_map,
      Function.comp_def, h.copy, Image.map]
  | transpose m =>
    simp only [Representation.perform, ← Image.kept_map, List.getElem?_map, Option.map_map,
      Function.comp_def, h.transpose, Image.map]
  | times m x =>
    simp only [Representation.perform, ← Image.kept_map, List.getElem?_map, Operand.of?_map]
    cases objects[m]? <;> cases x.of? objects <;> simp [h.times]
  | change m c =>
    simp only [Representation.perform, List.getElem?_map]
    cases objects[m]? <;> simp [h.change, List.map_set]
  | read m q =>
    simp only [Representation.perform, List.getElem?_map]
    cases objects[m]? <;> simp [h.read]
  | agrees m x =>
    simp only [Representation.perform, List.getElem?_map, Operand.of?_map]
    cases objects[m]? <;> cases x.of? objects <;> simp [h.agrees]

theorem Respects.run (h : Respects view R S) (objects : List O) (calls : List (Call K)) :
    S.run (objects.map view) calls = (R.run objects calls).map (·.map view) id := by
  induction calls generalizing objects with
  | nil => rfl
  | cons call calls ih =>
    simp only [Representation.run, h.perform, Prod.map_fst, Prod.map_snd, ih, id]
    rfl

/-! ## The two representations -/

/-- A table of entries, and the flag that was last given to it. -/
structure Sheet (K : Type) where
  table : Matrix (Fin 4) (Fin 4) K
  flag : Bool

/-- A change of the stored form. -/
def change (m : Matrix4 K) : Change K → Transition K (Matrix4 K)
  | .entry i j value => m.writeEntry i j value
  | .row i values => m.writeRow i values
  | .column j values => m.writeColumn j values
  | .flag flag => .done { m with transposed := flag }

/-- What is read from the stored form. -/
def read (m : Matrix4 K) : Query → Except (Fault K) (Answer K)
  | .entry i j => (m.entryAt i j).map .number
  | .row i => (m.rowAt i).map .line
  | .column j => (m.columnAt j).map .line
  | .rows => .ok (.lines m.rows)

/-- The operand as the products of matrices take it. -/
def Operand.factor : Operand K (Matrix4 K) → Factor K
  | .matrix m => .matrix m
  | .point p => .point p
  | .value x => .value x

/-- A product of matrices as an image. -/
def Product.image : Product K → Image K (Matrix4 K)
  | .matrix m => .matrix m
  | .homogeneous p => .homogeneous p
  | .direction p => .direction p

namespace Sheet

/-- A table that has no flag yet. -/
def of (t : Matrix (Fin 4) (Fin 4) K) : Sheet K := ⟨t, false⟩

/-- Another flag transposes the table. -/
def flagged (s : Sheet K) (flag : Bool) : Sheet K :=
  ⟨if flag = s.flag then s.table else s.table.transpose, flag⟩

/-- A change of the entries that are addressed, and of no others. Where a row or column has a value
that is no number, the entries before it are changed all the same. -/
def change (s : Sheet K) : Change K → Sheet K × Bool
  | .entry i j value =>
    match index? i, index? j, value.number? with
    | some i, some j, some x =>
      ({ s with table := s.table.updateRow i (Function.update (s.table.row i) j x) }, true)
    | _, _, _ => (s, false)
  | .row i values =>
    match index? i with
    | some i =>
      if values.length = 4 then
        ({ s with table := s.table.updateRow i (overwritten (s.table.row i) values) },
          values.all (·.number?.isSome))
      else (s, false)
    | none => (s, false)
  | .column j values =>
    match index? j with
    | some j =>
      if values.length = 4 then
        ({ s with table := s.table.updateCol j (overwritten (s.table.col j) values) },
          values.all (·.number?.isSome))
      else (s, false)
    | none => (s, false)
  | .flag flag => (s.flagged flag, true)

/-- What is read from the table. -/
def read (s : Sheet K) : Query → Option (Answer K)
  | .entry i j => do return .number (s.table (← index? i) (← index? j))
  | .row i => (index? i).map fun i ↦ .line (.ofGet (s.table.row i))
  | .column j => (index? j).map fun j ↦ .line (.ofGet (s.table.col j))
  | .rows => some (.lines (List.ofFn fun i ↦ .ofGet (s.table.row i)))

variable [Scalar K]

/-- The product of the table with a table, a point, a direction or a number. -/
def times (s : Sheet K) : Operand K (Sheet K) → Option (Image K (Sheet K))
  | .matrix t =>
    some (.matrix (of (.of fun i j ↦ summedProducts (s.table.row i) (t.table.col j))))
  | .point (.homogeneous p) =>
    some (.homogeneous (.ofGet fun i ↦ summedProducts (s.table.row i) p.get))
  | .point (.space p) =>
    some (.direction (Point4.ofGet fun i ↦
      summedProducts (s.table.row i) (p.withW 0.0).get).dropW)
  | .value (.number x) => some (.matrix (of (s.table.map (· * x))))
  | _ => none

/-- Is the operand a table with equal entries? -/
def agrees (s : Sheet K) : Operand K (Sheet K) → Bool
  | .matrix t => decide (∀ i j, s.table i j == t.table i j)
  | _ => false

end Sheet

section

variable [Scalar K]

open Classical in
/-- The sheet of the table that a value lists, under a flag. -/
noncomputable def Sheet.make (value : Raw K) (flag : Bool) : Option (Sheet K) :=
  if h : ∃ t, Lists value t then some ((of h.choose).flagged flag) else none

end

end Matrix4

end SolidModel
