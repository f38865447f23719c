import SolidModel.Point.Direction
import SolidModel.Transition

/-!
# Four by four matrices

A matrix acts on homogeneous points as columns. It stores four rows and a flag: when the flag is
set, the stored rows are the columns of the matrix that is meant. Everything is defined through
`row`, `column` and `entry`, which look through the flag; `stored` alone does not.

Entries are read and written by integer indices, which are checked, and written from unchecked
values, which are checked too. Writing a row or a column stops at the first value that is no
number and keeps the entries written before it.
-/

namespace SolidModel

/-- A four by four matrix, as stored rows and the flag that turns them into columns. -/
structure Matrix4 (K : Type) where
  row0 : Point4 K
  row1 : Point4 K
  row2 : Point4 K
  row3 : Point4 K
  transposed : Bool
  deriving DecidableEq

namespace Matrix4

variable {K : Type}

/-! ## Reading -/

/-- A stored row. -/
def stored (m : Matrix4 K) : Fin 4 → Point4 K
  | 0 => m.row0
  | 1 => m.row1
  | 2 => m.row2
  | 3 => m.row3

/-- The four stored entries at one place of each stored row. -/
def across (m : Matrix4 K) (i : Fin 4) : Point4 K :=
  ⟨m.row0.get i, m.row1.get i, m.row2.get i, m.row3.get i⟩

/-- A row of the matrix. -/
def row (m : Matrix4 K) (i : Fin 4) : Point4 K := if m.transposed then m.across i else m.stored i

/-- A column of the matrix. -/
def column (m : Matrix4 K) (j : Fin 4) : Point4 K :=
  if m.transposed then m.stored j else m.across j

/-- An entry of the matrix. -/
def entry (m : Matrix4 K) (i j : Fin 4) : K :=
  if m.transposed then (m.stored j).get i else (m.stored i).get j

@[simp] theorem get_row (m : Matrix4 K) (i j : Fin 4) : (m.row i).get j = m.entry i j := by
  simp only [row, entry]
  split
  · match j with
    | 0 | 1 | 2 | 3 => rfl
  · rfl

@[simp] theorem get_column (m : Matrix4 K) (i j : Fin 4) :
    (m.column j).get i = m.entry i j := by
  simp only [column, entry]
  split
  · rfl
  · match i with
    | 0 | 1 | 2 | 3 => rfl

/-- The rows of the matrix. -/
def rows (m : Matrix4 K) : List (Point4 K) := [m.row 0, m.row 1, m.row 2, m.row 3]

/-- The stored rows. -/
def storedRows (m : Matrix4 K) : List (Point4 K) := [m.row0, m.row1, m.row2, m.row3]

/-- An integer as an index, if it is one. -/
def index? (i : Int) : Option (Fin 4) :=
  if h : 0 ≤ i ∧ i < 4 then some ⟨i.toNat, by omega⟩ else none

/-- The entry at two integers. -/
def entryAt (m : Matrix4 K) (i j : Int) : Except (Fault K) K :=
  match index? i, index? j with
  | some i, some j => .ok (m.entry i j)
  | _, _ => .error (.noEntryToRead i j)

/-- The row at an integer. -/
def rowAt (m : Matrix4 K) (i : Int) : Except (Fault K) (Point4 K) :=
  match index? i with
  | some i => .ok (m.row i)
  | none => .error (.noMatrixLine .readRow i)

/-- The column at an integer. -/
def columnAt (m : Matrix4 K) (j : Int) : Except (Fault K) (Point4 K) :=
  match index? j with
  | some j => .ok (m.column j)
  | none => .error (.noMatrixLine .readColumn j)

/-! ## Writing -/

/-- With one stored row replaced. -/
def setStored (m : Matrix4 K) (i : Fin 4) (r : Point4 K) : Matrix4 K :=
  match i with
  | 0 => { m with row0 := r }
  | 1 => { m with row1 := r }
  | 2 => { m with row2 := r }
  | 3 => { m with row3 := r }

/-- With one entry changed. -/
def setEntry (m : Matrix4 K) (i j : Fin 4) (x : K) : Matrix4 K :=
  if m.transposed then m.setStored j ((m.stored j).set i x)
  else m.setStored i ((m.stored i).set j x)

/-- With the last column, the shift, replaced. -/
def shiftedTo (m : Matrix4 K) (p : Point4 K) : Matrix4 K :=
  (((m.setEntry 0 3 p.x).setEntry 1 3 p.y).setEntry 2 3 p.z).setEntry 3 3 p.w

/-- An unchecked value as an entry. -/
def checked (value : Raw K) : Except (Fault K) K :=
  match value.number? with
  | some x => .ok x
  | none => .error (.notMatrixEntry value)

/-- Writes values to entries in order, up to the first that is no number. -/
def writeEntries (m : Matrix4 K) : List (Fin 4 × Fin 4 × Raw K) → Transition K (Matrix4 K)
  | [] => .done m
  | (i, j, value) :: rest =>
    match checked value with
    | .ok x => (m.setEntry i j x).writeEntries rest
    | .error fault => .stopped m fault

/-- Writes the entry at two integers. -/
def writeEntry (m : Matrix4 K) (i j : Int) (value : Raw K) : Transition K (Matrix4 K) :=
  match index? i, index? j with
  | some i, some j => m.writeEntries [(i, j, value)]
  | _, _ => .stopped m (.noEntryToWrite i j)

/-- Writes the row at an integer. -/
def writeRow (m : Matrix4 K) (i : Int) (values : List (Raw K)) : Transition K (Matrix4 K) :=
  match index? i, values with
  | none, _ => .stopped m (.noMatrixLine .writeRow i)
  | some i, [a, b, c, d] => m.writeEntries [(i, 0, a), (i, 1, b), (i, 2, c), (i, 3, d)]
  | some _, _ => .stopped m (.notMatrixLine .writeRow values)

/-- Writes the column at an integer. -/
def writeColumn (m : Matrix4 K) (j : Int) (values : List (Raw K)) : Transition K (Matrix4 K) :=
  match index? j, values with
  | none, _ => .stopped m (.noMatrixLine .writeColumn j)
  | some j, [a, b, c, d] => m.writeEntries [(0, j, a), (1, j, b), (2, j, c), (3, j, d)]
  | some _, _ => .stopped m (.notMatrixLine .writeColumn values)

/-! ## Making matrices -/

/-- The matrix with the given rows. -/
def ofRows (a b c d : Point4 K) : Matrix4 K := ⟨a, b, c, d, false⟩

/-- The matrix that is meant, stored by rows and then read under a new flag. -/
def copied (m : Matrix4 K) (transposed : Bool) : Matrix4 K :=
  { ofRows (m.row 0) (m.row 1) (m.row 2) (m.row 3) with transposed }

/-- The transposed matrix, stored by rows. -/
def transpose (m : Matrix4 K) : Matrix4 K :=
  ofRows (m.column 0) (m.column 1) (m.column 2) (m.column 3)

@[simp] theorem entry_copied (m : Matrix4 K) (i j : Fin 4) :
    (m.copied false).entry i j = m.entry i j := by
  rw [← get_row, ← get_row m]
  match i with
  | 0 | 1 | 2 | 3 => rfl

/-- A copy that is read transposed is the transposed matrix. -/
@[simp] theorem entry_copied_transposed (m : Matrix4 K) (i j : Fin 4) :
    (m.copied true).entry i j = m.entry j i := by
  rw [← get_column, ← get_row m]
  match j with
  | 0 | 1 | 2 | 3 => rfl

variable [Scalar K]

/-- The matrix that changes nothing. -/
def identity : Matrix4 K :=
  ofRows ⟨1.0, 0.0, 0.0, 0.0⟩ ⟨0.0, 1.0, 0.0, 0.0⟩ ⟨0.0, 0.0, 1.0, 0.0⟩ ⟨0.0, 0.0, 0.0, 1.0⟩

/-- A row from four unchecked values. -/
def checkedRow (a b c d : Raw K) : Except (Fault K) (Point4 K) := do
  return ⟨← checked a, ← checked b, ← checked c, ← checked d⟩

/-- The sixteen entries in a list of four rows of four, or in one list; nothing else has them. -/
def entries? (items : List (Raw K)) : Option (List (Raw K)) :=
  match items.mapM Raw.items? with
  | some [a, b, c, d] =>
    if a.length = 4 ∧ b.length = 4 ∧ c.length = 4 ∧ d.length = 4 then some (a ++ b ++ c ++ d)
    else none
  | _ => if items.length = 16 then some items else none

/-- A matrix from an unchecked value: four rows of four numbers, sixteen numbers by rows, or
nothing for the identity. -/
def ofRaw (value : Raw K) (transposed : Bool := false) : Except (Fault K) (Matrix4 K) :=
  match value with
  | .nothing => .ok { identity with transposed }
  | .list items =>
    match entries? items with
    | some [a, b, c, d, e, f, g, h, i, j, k, l, m, n, o, p] => do
      let r0 ← checkedRow a b c d
      let r1 ← checkedRow e f g h
      let r2 ← checkedRow i j k l
      let r3 ← checkedRow m n o p
      return ⟨r0, r1, r2, r3, transposed⟩
    | _ => .error (.notMatrix value)
  | _ => .error (.notMatrix value)

/-- Equal in every entry, as numbers, whatever the flags. -/
protected def beq (m n : Matrix4 K) : Bool := m.rows == n.rows

instance : BEq (Matrix4 K) := ⟨Matrix4.beq⟩

/-! ## Products -/

/-- The image of a homogeneous point. -/
def apply (m : Matrix4 K) (p : Point4 K) : Point4 K :=
  ⟨VectorOps.dot (m.row 0) p, VectorOps.dot (m.row 1) p, VectorOps.dot (m.row 2) p,
    VectorOps.dot (m.row 3) p⟩

/-- The image of a direction of space, which is not shifted. -/
def applyDirection (m : Matrix4 K) (p : Point3 K) : Point3 K := (m.apply (p.withW 0.0)).dropW

/-- The image of a place of space. -/
def applyPlace (m : Matrix4 K) (p : Point3 K) : Point3 K := (m.apply (p.withW 1.0)).dropW

/-- The matrix that acts as `n` and then as `m`. -/
protected def mul (m n : Matrix4 K) : Matrix4 K :=
  let line (i : Fin 4) : Point4 K :=
    ⟨VectorOps.dot (m.row i) (n.column 0), VectorOps.dot (m.row i) (n.column 1),
      VectorOps.dot (m.row i) (n.column 2), VectorOps.dot (m.row i) (n.column 3)⟩
  ofRows (line 0) (line 1) (line 2) (line 3)

instance : Mul (Matrix4 K) := ⟨Matrix4.mul⟩

theorem entry_mul (m n : Matrix4 K) (i j : Fin 4) :
    (m * n).entry i j = VectorOps.dot (m.row i) (n.column j) := by
  match i, j with
  | 0, 0 | 1, 1 | 2, 2 | 3, 3 => rfl
  | 0, 1 | 0, 2 | 0, 3 | 1, 0 | 1, 2 | 1, 3 | 2, 0 | 2, 1 | 2, 3 | 3, 0 | 3, 1 | 3, 2 => rfl

/-- Every entry multiplied by a number. -/
def scaled (m : Matrix4 K) (x : K) : Matrix4 K :=
  ofRows (m.row 0 * x) (m.row 1 * x) (m.row 2 * x) (m.row 3 * x)

/-- What may stand behind a matrix in a product. -/
inductive Factor (K : Type) where
  | matrix (m : Matrix4 K)
  | point (p : Position K)
  | value (x : Raw K)

/-- What a product is. -/
inductive Product (K : Type) where
  | matrix (m : Matrix4 K)
  | homogeneous (p : Point4 K)
  | direction (p : Point3 K)

/-- The product with a matrix, a homogeneous point, a direction of space or a number. -/
def times (m : Matrix4 K) : Factor K → Except (Fault K) (Product K)
  | .matrix n => .ok (.matrix (m * n))
  | .point (.homogeneous p) => .ok (.homogeneous (m.apply p))
  | .point (.space p) => .ok (.direction (m.applyDirection p))
  | .point (.plane p) => .error (.notFactorPoint (.plane p))
  | .value (.number x) => .ok (.matrix (m.scaled x))
  | .value x => .error (.notFactor x)

/-- Is the other factor a matrix with the same entries? -/
def agrees (m : Matrix4 K) : Factor K → Bool
  | .matrix n => m == n
  | _ => false

omit [Scalar K] in
/-- The stored rows and the flag. -/
def text [NumberText K] (m : Matrix4 K) : String :=
  let lines := m.storedRows.map fun r =>
    Text.bracketed [numberText r.x, numberText r.y, numberText r.z, numberText r.w]
  "Matrix(" ++ ",".intercalate (lines ++ [flagText m.transposed]) ++ ")"

end Matrix4

end SolidModel
