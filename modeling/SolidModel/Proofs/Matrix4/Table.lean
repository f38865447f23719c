import Mathlib
import SolidModel.Matrix4.Basic
import SolidModel.Proofs.Outcome

/-!
# The table of entries behind a matrix

A matrix stores four rows and a flag that may turn them into columns. What it means is its `table`:
the stored rows, or their transpose where the flag is set. Here every operation on the stored form
becomes the operation of its name on tables.
-/

namespace SolidModel

variable {K : Type}

/-- By this fact numerals are indices. -/
local instance neZero_four : NeZero (3 + 1) := ⟨Nat.succ_ne_zero 3⟩

namespace Point4

/-- The point with the given coordinates. -/
def ofGet (f : Fin 4 → K) : Point4 K := ⟨f 0, f 1, f 2, f 3⟩

@[simp] theorem get_ofGet (f : Fin 4 → K) (i : Fin 4) : (ofGet f).get i = f i := by
  match i with
  | 0 | 1 | 2 | 3 => rfl

end Point4

namespace Raw

end Raw

namespace Matrix4

/-- The entries of the matrix that is meant. -/
def table (m : Matrix4 K) : Matrix (Fin 4) (Fin 4) K :=
  let rows : Matrix (Fin 4) (Fin 4) K := .of fun i ↦ (m.stored i).get
  if m.transposed then rows.transpose else rows

variable (m : Matrix4 K)

theorem table_apply (i j : Fin 4) : m.table i j = m.entry i j := by
  simp only [table, entry]
  split <;> rfl

variable {m} in
theorem table_eq_iff {t : Matrix (Fin 4) (Fin 4) K} :
    m.table = t ↔ ∀ i j, m.entry i j = t i j := by
  simp only [← Matrix.ext_iff, table_apply]

/-! ## Reading -/

theorem row_eq_ofGet (i : Fin 4) : m.row i = .ofGet (m.table.row i) :=
  Point4.eq_of_get fun j ↦ by simp [table_apply]

theorem column_eq_ofGet (j : Fin 4) : m.column j = .ofGet (m.table.col j) :=
  Point4.eq_of_get fun i ↦ by simp [table_apply]

/-! ## Copies -/

/-- The numbers before the first value that is none. -/
def leadingNumbers (values : List (Raw K)) : List K :=
  (values.takeWhile fun v ↦ v.number?.isSome).filterMap Raw.number?

/-- Where a value is to be written. -/
def place (w : Fin 4 × Fin 4 × Raw K) : Fin 4 × Fin 4 := (w.1, w.2.1)

variable {m} {writes : List (Fin 4 × Fin 4 × Raw K)}

/-- Coordinates with the leading numbers of a list written over them. -/
def overwritten (old : Fin 4 → K) (values : List (Raw K)) (i : Fin 4) : K :=
  (leadingNumbers values)[(i : ℕ)]?.getD (old i)

section

variable [Scalar K]

/-- The products of the coordinates, summed up from the first to the last. -/
def summedProducts (u v : Fin 4 → K) : K := u 0 * v 0 + u 1 * v 1 + u 2 * v 2 + u 3 * v 3

theorem dot_row (m : Matrix4 K) (i : Fin 4) (p : Point4 K) :
    VectorOps.dot (m.row i) p = summedProducts (m.table.row i) p.get := by
  change summedProducts (m.row i).get p.get = _
  simp only [row_eq_ofGet, summedProducts, Point4.get_ofGet]

theorem table_mul (m n : Matrix4 K) :
    (m * n).table = .of fun i j ↦ summedProducts (m.table.row i) (n.table.col j) := by
  refine table_eq_iff.mpr fun i j ↦ ?_
  rw [entry_mul, dot_row, column_eq_ofGet]
  simp only [summedProducts, Point4.get_ofGet, Matrix.of_apply]

theorem apply_eq_ofGet (m : Matrix4 K) (p : Point4 K) :
    m.apply p = .ofGet fun i ↦ summedProducts (m.table.row i) p.get := by
  simp only [apply, dot_row, Point4.ofGet]

end

/-! ## Making -/

/-- A table written out by rows. -/
def numberRows (t : Matrix (Fin 4) (Fin 4) K) : List (List (Raw K)) :=
  List.ofFn fun i ↦ List.ofFn fun j ↦ .number (t i j)

variable [Scalar K]

/-- The value lists the entries of a table by rows, in lists of their own or in one list; no value
stands for the table of the identity. -/
inductive Lists : Raw K → Matrix (Fin 4) (Fin 4) K → Prop where
  | nothing : Lists .nothing (.of fun i j ↦ if i = j then 1.0 else 0.0)
  | nested (t : Matrix (Fin 4) (Fin 4) K) : Lists (.list ((numberRows t).map .list)) t
  | flat (t : Matrix (Fin 4) (Fin 4) K) : Lists (.list (numberRows t).flatten) t

/-- The matrix that stores a table by rows, read under a flag. -/
def ofTable (t : Matrix (Fin 4) (Fin 4) K) (flag : Bool) : Matrix4 K :=
  ⟨.ofGet (t 0), .ofGet (t 1), .ofGet (t 2), .ofGet (t 3), flag⟩

end Matrix4

end SolidModel
