import SolidModel.Fault

/-!
# Changes that can be refused

Some changes to a value are refused half way and keep what they had already done. A `Transition`
is therefore the value afterwards together with the cause, if there was one; a change that is
all or nothing returns the old value along with its cause.
-/

namespace SolidModel

/-- The state after a change, and why the change stopped, if it did. -/
structure Transition (K State : Type) where
  state : State
  fault : Option (Fault K)

namespace Transition

variable {K State : Type}

/-- A change carried out. -/
def done (state : State) : Transition K State := ⟨state, none⟩

@[simp] theorem state_done (state : State) : (done state : Transition K State).state = state := rfl

/-- A change that stopped in `state`. -/
def stopped (state : State) (fault : Fault K) : Transition K State := ⟨state, some fault⟩

@[simp] theorem state_stopped (state : State) (fault : Fault K) :
    (stopped state fault).state = state := rfl

/-- A change that either happens or leaves `state` as it is. -/
def attempt (state : State) (change : Except (Fault K) State) : Transition K State :=
  match change with
  | .ok after => done after
  | .error fault => stopped state fault

end Transition

end SolidModel
