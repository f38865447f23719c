/-!
# Positions counted from either end

A position in a sequence may be given by an integer: from zero on it counts from the front, below
zero from the back, the last element being at minus one.
-/

namespace SolidModel

/-- The position that an integer stands for in a sequence of the given length, if any. -/
def position? (length : Nat) (i : Int) : Option Nat :=
  let place := if i < 0 then i + length else i
  if 0 ≤ place ∧ place < length then some place.toNat else none

theorem position?_lt {length : Nat} {i : Int} {k : Nat} (h : position? length i = some k) :
    k < length := by
  simp only [position?, Option.ite_none_right_eq_some, Option.some.injEq] at h
  omega

end SolidModel
