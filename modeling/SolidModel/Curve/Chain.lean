import SolidModel.Curve.Bezier
import SolidModel.Transition

/-!
# Chains of curves

A chain is a run of cubic curves, each starting where the one before it ends and leaving in the
direction in which that one arrived: only the length of its first handle is chosen. Closing the
chain adds a last curve back to the start and turns the handle of the first curve to match, after
which nothing more can be added.

Closing has two steps. If the second is refused, because the last curve arrives from nowhere, the
curve that the first step added stays and the chain stays open.
-/

namespace SolidModel

/-- A chain has at least one curve; `later` holds the others in order. -/
structure Chain (P : Type) where
  first : CubicBezier P
  later : List (CubicBezier P)
  closed : Bool
  deriving DecidableEq

namespace Chain

variable {K P : Type} [Scalar K] [VectorOps K P]

/-- All curves in order. -/
def curves (c : Chain P) : List (CubicBezier P) := c.first :: c.later

/-- The last curve. -/
def last (c : Chain P) : CubicBezier P := c.later.getLast?.getD c.first

omit [Scalar K] [VectorOps K P] in
theorem getLast?_curves (c : Chain P) : c.curves.getLast? = some c.last := by
  simp [curves, last, List.getLast?_cons]

/-- The chain of one curve. -/
def start (first : CubicBezier P) : Except (Fault K) (Chain P) := do
  Bezier.checkSegments first.segments
  return ⟨first, [], false⟩

variable [Trig K]

/-- The handle of the given length that goes on from the end of a curve. -/
def handle (b : CubicBezier P) (length : K) : Except (Fault K) P := do
  return b.finish + (← VectorOps.normalized (b.finish - b.control2)) * length

/-- The chain with one more curve. -/
def extended (c : Chain P) (handleLength : K) (control2 finish : P) (segments : Int) :
    Except (Fault K) (Chain P) := do
  Bezier.checkSegments segments
  let control1 ← handle c.last handleLength
  return { c with later := c.later ++ [⟨c.last.finish, control1, control2, finish, segments⟩] }

/-- Adds a curve to an open chain. -/
def add (c : Chain P) (handleLength : K) (control2 finish : P) (segments : Int) :
    Transition K (Chain P) :=
  if c.closed then .stopped c .growingClosedChain
  else .attempt c (c.extended handleLength control2 finish segments)

/-- Adds the curve back to the start of an open chain and turns the first handle to match. -/
def close (c : Chain P) (handleLength : K) (control2 : P) (firstHandleLength : K)
    (segments : Int) : Transition K (Chain P) :=
  if c.closed then .stopped c .closingClosedChain
  else
    match c.extended handleLength control2 c.first.start segments with
    | .error fault => .stopped c fault
    | .ok longer =>
      match handle longer.last firstHandleLength with
      | .error fault => .stopped longer fault
      | .ok control1 =>
        .done { longer with first := { longer.first with control1 }, closed := true }

omit [Trig K] in
/-- The samples of all curves, each joint once; the last sample of a closed chain would repeat
the first and is left out. -/
def points (c : Chain P) : Except (Fault K) (List P) := do
  let samples ← c.curves.mapM CubicBezier.points
  let joined := samples.foldl (fun before next => before.dropLast ++ next) []
  return if c.closed then joined.dropLast else joined

end Chain

end SolidModel
