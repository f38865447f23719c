import SolidModel.Matrix4.Basic

/-!
# Inverse matrices

The inverse solves four systems of equations at once, by elimination: the equation with the
largest leading coefficient is the pivot, the first of those where several are. A matrix is
singular exactly if a pivot is zero.
-/

namespace SolidModel

namespace Matrix4

variable {K : Type} [Scalar K]

/-- One linear equation with four right sides. -/
structure Equation (K : Type) where
  coefficients : List K
  right : Point4 K

/-- The coefficient of the first unknown. -/
def Equation.leading (e : Equation K) : K := e.coefficients.headD 0.0

/-- The equation less a multiple of the pivot, without the first unknown. -/
def Equation.reduced (pivot e : Equation K) : Equation K :=
  let share := e.leading * (1.0 / pivot.leading)
  ⟨List.zipWith (fun a b => a - share * b) e.coefficients.tail pivot.coefficients.tail,
    e.right - pivot.right * share⟩

/-- The position of the equation with the largest leading coefficient. -/
def pivotIndex (equations : List (Equation K)) : Nat :=
  let step (best : Nat × K) (next : Equation K × Nat) : Nat × K :=
    let size := Scalar.magnitude next.1.leading
    if best.2 < size then (next.2, size) else best
  match equations with
  | [] => 0
  | first :: rest => ((rest.zipIdx 1).foldl step (0, Scalar.magnitude first.leading)).1

/-- The unknowns of as many equations, in order, or nothing for a singular system. -/
def solve : Nat → List (Equation K) → Option (List (Point4 K))
  | 0, _ => some []
  | unknowns + 1, equations =>
    let place := pivotIndex equations
    match equations, equations[place]? with
    | first :: _, some pivot =>
      if pivot.leading == 0.0 then none
      else do
        let others := (equations.set place first).tail
        let found ← solve unknowns (others.map pivot.reduced)
        let rest := (pivot.coefficients.tail.zip found).foldr
          (fun (a, x) sum => sum - x * a) pivot.right
        return rest / pivot.leading :: found
    | _, _ => none

/-- The matrix that undoes `m`. -/
def inverse (m : Matrix4 K) : Except (Fault K) (Matrix4 K) :=
  let equations := List.zipWith (fun r (right : Point4 K) => ⟨r.toList, right⟩) m.rows identity.rows
  match solve 4 equations with
  | some [a, b, c, d] => .ok (ofRows a b c d)
  | _ => .error .singularMatrix

end Matrix4

end SolidModel
