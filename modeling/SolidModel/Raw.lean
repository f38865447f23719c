/-!
# Values of unknown kind

Matrices, scalings and combinations are also built from values that a caller read from somewhere
and did not check. Such a value is a number, a text, a flag, nothing, or a list of values; what
does not fit is refused with the value in the message.
-/

namespace SolidModel

/-- A value whose kind is not known beforehand. -/
inductive Raw (K : Type) where
  | number (x : K)
  | text (s : String)
  | flag (b : Bool)
  | nothing
  | list (items : List (Raw K))

namespace Raw

variable {K : Type}

instance : Inhabited (Raw K) := ⟨nothing⟩

/-- The number, if it is one; a flag is not. -/
def number? : Raw K → Option K
  | number x => some x
  | _ => none

/-- The items, if it is a list. -/
def items? : Raw K → Option (List (Raw K))
  | list items => some items
  | _ => none

end Raw

end SolidModel
