import Mathlib
import SolidModel.Proofs.Assembly.Motions
import SolidModel.Proofs.Outcome
import SolidModel.Proofs.Plane.Exact

/-!
# Calls on a combination

A combination is made with an operation and parts; calls add parts to it, finalize it and move it,
and some are refused. What a call can do is said once, by `Effect`: nothing at all if it is refused,
or one more part, or an end of growth, or every point taken elsewhere.

A motion goes on to the parts of parts and leaves everything but the points as it is, whether the
combination is finalized or not. So the parts after a run of calls can be named exactly: those at
the start and those of the additions carried out, in their order, each with its points taken where
the calls after it take them, see `parts_run`. To finalize a combination is to have no further
additions, and nothing more than that.
-/

namespace SolidModel

open Outcome

variable {K : Type}

namespace Operation

theorem ofName_eq_ok_iff {name : String} {o : Operation} :
    (ofName name : Except (Fault K) Operation) = .ok o ↔ o.name = name := by
  constructor
  · intro h
    unfold ofName at h
    split at h
    next hunion =>
      cases h
      exact hunion.symm
    next =>
      split at h
      next hintersection =>
        cases h
        exact hintersection.symm
      next =>
        split at h
        next hdifference =>
          cases h
          exact hdifference.symm
        next => cases h
  · rintro rfl
    exact ofName_name o

private theorem name_mem (o : Operation) : o.name ∈ ["union", "intersection", "difference"] := by
  cases o <;> simp [name]

end Operation

/-! ## Taking points elsewhere -/

/-- The polyhedron with every point taken elsewhere. -/
def Polyhedron.placed (f : Point3 K → Point3 K) (p : Polyhedron K) : Polyhedron K :=
  { p with points := p.points.map f }

namespace Solid

/-- The solid with every point of its leaves taken elsewhere. -/
def placed (f : Point3 K → Point3 K) (s : Solid K) : Solid K := s.mapLeaves (·.placed f)

theorem placed_placed (f g : Point3 K → Point3 K) (s : Solid K) :
    (s.placed f).placed g = s.placed fun q ↦ g (f q) := by
  simp only [placed, mapLeaves_mapLeaves, Polyhedron.placed, List.map_map, Function.comp_def]

private theorem map_placed_map_placed (f g : Point3 K → Point3 K) (parts : List (Solid K)) :
    (parts.map (·.placed f)).map (·.placed g) = parts.map (·.placed fun q ↦ g (f q)) := by
  simp only [List.map_map, Function.comp_def, placed_placed]

mutual

theorem placed_id (s : Solid K) : (s.placed fun q ↦ q) = s := by
  match s with
  | .polyhedron p => simp [placed, mapLeaves, Polyhedron.placed]
  | .combination operation finalized parts =>
    exact congrArg (combination operation finalized) (mapLeavesOf_placed_id parts)

theorem mapLeavesOf_placed_id (parts : List (Solid K)) :
    mapLeavesOf (fun p ↦ p.placed fun q ↦ q) parts = parts := by
  match parts with
  | [] => rfl
  | s :: rest => exact congrArg₂ List.cons (placed_id s) (mapLeavesOf_placed_id rest)

end

theorem unplaced_placed (f : Point3 K → Point3 K) (s : Solid K) :
    (s.placed f).unplaced = s.unplaced :=
  unplaced_mapLeaves (fun p ↦ p.points.map f) s

end Solid

namespace Combination

/-! ## Calls and runs -/

/-- A call that changes a combination. -/
inductive Call (K : Type) where
  | add (part : Solid K)
  | addRaw (value : Raw K)
  | finalize
  | shift (delta : Point3 K)
  | move (m : Matrix4 K)

/-- The combination of parts by the operation of a name. -/
def ofNamed (name : String) (parts : List (Solid K)) : Except (Fault K) (Combination K) := do
  return ofParts (← Operation.ofName name) parts

variable [Scalar K]

/-- Where a call takes a point. -/
def Call.place : Call K → Point3 K → Point3 K
  | .add _, q => q
  | .addRaw _, q => q
  | .finalize, q => q
  | .shift delta, q => q + delta
  | .move m, q => m.applyPlace q

/-- Where calls in a row take a point. -/
def place (calls : List (Call K)) (q : Point3 K) : Point3 K :=
  calls.foldl (fun q call ↦ call.place q) q

/-- A call carried out as far as it goes. -/
def perform (c : Combination K) : Call K → Transition K (Combination K)
  | .add part => c.add part
  | .addRaw value => c.addRaw value
  | .finalize => c.finalize
  | .shift delta => .done (c.shifted delta)
  | .move m => .done (c.moved m)

/-- The combination after calls in a row, whether they are refused or not. -/
def run (c : Combination K) (calls : List (Call K)) : Combination K :=
  calls.foldl (fun c call ↦ (c.perform call).state) c

/-- The parts of the additions that are carried out, each with the calls that come after it. -/
def added : Combination K → List (Call K) → List (Solid K × List (Call K))
  | _, [] => []
  | c, call :: later =>
    match call, (c.perform call).fault with
    | .add part, none => (part, later) :: added (c.perform call).state later
    | _, _ => added (c.perform call).state later

theorem added_cons (c : Combination K) (call : Call K) (later : List (Call K)) :
    c.added (call :: later) =
      match call, (c.perform call).fault with
      | .add part, none => (part, later) :: added (c.perform call).state later
      | _, _ => added (c.perform call).state later := rfl

@[simp] theorem place_nil : (place [] : Point3 K → Point3 K) = fun q ↦ q := rfl

@[simp] theorem run_nil (c : Combination K) : c.run [] = c := rfl

theorem run_cons (c : Combination K) (call : Call K) (later : List (Call K)) :
    c.run (call :: later) = (c.perform call).state.run later := rfl

theorem run_append (c : Combination K) (calls later : List (Call K)) :
    c.run (calls ++ later) = (c.run calls).run later := List.foldl_append

/-! ## What a call does -/

/-- The combination with every point of its leaves taken elsewhere. -/
def placed (f : Point3 K → Point3 K) (c : Combination K) : Combination K :=
  { c with parts := c.parts.map (·.placed f) }

omit [Scalar K] in
@[simp] theorem parts_placed (f : Point3 K → Point3 K) (c : Combination K) :
    (c.placed f).parts = c.parts.map (·.placed f) := rfl

/-- The calls that are refused: a part for a finalized combination, a value that is no part, and
finalizing without parts. -/
def Refuses (c : Combination K) : Call K → Prop
  | .add _ => c.finalized = true
  | .addRaw _ => True
  | .finalize => c.parts = []
  | .shift _ => False
  | .move _ => False

/-- What a call does: nothing at all; one more part; an end of growth; or points elsewhere. -/
inductive Effect (c : Combination K) : Call K → Transition K (Combination K) → Prop where
  | refused {call : Call K} (fault : Fault K) (h : c.Refuses call) :
      Effect c call (.stopped c fault)
  | grows (part : Solid K) (h : c.finalized = false) :
      Effect c (.add part) (.done { c with parts := c.parts ++ [part] })
  | closes (h : c.parts ≠ []) : Effect c .finalize (.done { c with finalized := true })
  | shifts (delta : Point3 K) : Effect c (.shift delta) (.done (c.placed (· + delta)))
  | moves (m : Matrix4 K) : Effect c (.move m) (.done (c.placed m.applyPlace))

theorem effect (c : Combination K) (call : Call K) : Effect c call (c.perform call) := by
  cases call with
  | add part =>
    simp only [perform, add]
    split
    next h => exact .refused _ h
    next h => exact .grows part (Bool.eq_false_of_not_eq_true h)
  | addRaw value =>
    simp only [perform, addRaw]
    split
    next => exact .refused _ trivial
    next => exact .refused _ trivial
  | finalize =>
    simp only [perform, finalize]
    split
    next h => exact .refused _ (List.isEmpty_iff.mp h)
    next h => exact .closes fun hparts ↦ h (List.isEmpty_iff.mpr hparts)
  | shift delta => exact .shifts delta
  | move m => exact .moves m

private theorem place_cons_of_refuses {c : Combination K} {call : Call K} (h : c.Refuses call)
    (later : List (Call K)) : place (call :: later) = place later := by
  cases call with
  | add | addRaw | finalize => rfl
  | shift | move => exact h.elim

variable {c : Combination K} {call : Call K} {t : Transition K (Combination K)}

namespace Effect

theorem state_of_fault (h : Effect c call t) {fault : Fault K} (hfault : t.fault = some fault) :
    t.state = c := by
  cases h with
  | refused => rfl
  | grows | closes | shifts | moves => cases hfault

theorem fault_eq_none_iff (h : Effect c call t) : t.fault = none ↔ ¬c.Refuses call := by
  cases h with
  | refused fault h => exact iff_of_false (Option.some_ne_none fault) (not_not.mpr h)
  | grows part h => exact iff_of_true rfl (Bool.eq_false_iff.mp h)
  | closes h => exact iff_of_true rfl h
  | shifts | moves => exact iff_of_true rfl id

theorem operation_eq (h : Effect c call t) : t.state.operation = c.operation := by
  cases h <;> rfl

theorem finalized_iff (h : Effect c call t) :
    t.state.finalized = true ↔ c.finalized = true ∨ (call = .finalize ∧ t.fault = none) := by
  cases h with
  | refused fault => simp [Transition.stopped]
  | grows | shifts | moves => simp [Transition.done, placed]
  | closes => simp [Transition.done]

end Effect

/-! ## What is left after a run -/

theorem operation_run (c : Combination K) (calls : List (Call K)) :
    (c.run calls).operation = c.operation := by
  induction calls generalizing c with
  | nil => rfl
  | cons call later ih => rw [run_cons, ih, (effect c call).operation_eq]

/-- The parts after a run are those at the start and those of the additions carried out, all of them
where the later calls take them. -/
theorem parts_run (c : Combination K) (calls : List (Call K)) :
    (c.run calls).parts = c.parts.map (·.placed (place calls)) ++
      (c.added calls).map fun a ↦ a.1.placed (place a.2) := by
  induction calls generalizing c with
  | nil => simp [added, Solid.placed_id]
  | cons call later ih =>
    rw [run_cons, ih, added_cons]
    have heffect := effect c call
    generalize c.perform call = t at heffect ⊢
    cases heffect with
    | refused fault h =>
      rw [place_cons_of_refuses h]
      cases call <;> rfl
    | grows part h =>
      have hplace : place (.add part :: later) = place later := rfl
      simp [Transition.done, hplace]
    | closes h => rfl
    | shifts | moves =>
      rw [Transition.state_done, parts_placed, Solid.map_placed_map_placed]
      rfl

/-- A combination is not finalized without parts. -/
def Founded (c : Combination K) : Prop := c.finalized = true → c.parts ≠ []

omit [Scalar K] in
theorem founded_ofParts (operation : Operation) (parts : List (Solid K)) :
    (ofParts operation parts).Founded := fun h ↦ by cases h

theorem Effect.founded (h : Effect c call t) (hc : c.Founded) : t.state.Founded := by
  cases h with
  | refused => exact hc
  | grows part => exact fun _ ↦ List.concat_ne_nil part c.parts
  | closes hparts => exact fun _ ↦ hparts
  | shifts | moves => exact fun hfinalized ↦ by simpa using hc hfinalized

theorem Founded.run (h : c.Founded) (calls : List (Call K)) : (c.run calls).Founded := by
  induction calls generalizing c with
  | nil => exact h
  | cons call later ih => exact ih ((effect c call).founded h)

theorem finalized_run (h : c.finalized = true) (calls : List (Call K)) :
    (c.run calls).finalized = true := by
  induction calls generalizing c with
  | nil => exact h
  | cons call later ih => exact ih ((effect c call).finalized_iff.mpr (.inl h))

theorem finalized_run_iff (h : c.finalized = false) (calls : List (Call K)) :
    (c.run calls).finalized = true ↔
      ∃ before later, calls = before ++ .finalize :: later ∧
        ((c.run before).perform .finalize).fault = none := by
  constructor
  · intro hrun
    induction calls generalizing c with
    | nil => cases h.symm.trans hrun
    | cons call calls ih =>
      by_cases hcall : (c.perform call).state.finalized = true
      · obtain hc | ⟨rfl, hfault⟩ := (effect c call).finalized_iff.mp hcall
        · cases h.symm.trans hc
        · exact ⟨[], calls, rfl, hfault⟩
      · obtain ⟨before, later, rfl, hfault⟩ := ih (Bool.eq_false_of_not_eq_true hcall) hrun
        exact ⟨call :: before, later, rfl, hfault⟩
  · rintro ⟨before, later, rfl, hfault⟩
    rw [run_append, run_cons]
    exact finalized_run ((effect _ _).finalized_iff.mpr (.inr ⟨rfl, hfault⟩)) later

private theorem added_of_finalized (h : c.finalized = true) (calls : List (Call K)) :
    c.added calls = [] := by
  induction calls generalizing c with
  | nil => rfl
  | cons call later ih =>
    rw [added_cons]
    have heffect := effect c call
    generalize c.perform call = t at heffect ⊢
    cases heffect with
    | refused => cases call <;> exact ih h
    | grows part hopen => cases hopen.symm.trans h
    | closes => exact ih rfl
    | shifts | moves => exact ih h

/-- **Calls on a combination.** A combination keeps the operation it was made with, which is one of
three. Its parts are those it was made with and those of the additions that were carried out, in
this order, each with its points where the later calls take them. Once a call to finalize it was not
refused it is finalized for good, has parts, and is changed by later calls in the places of points
alone. A refused call leaves all as it was. -/
theorem run_ofNamed {name : String} {parts : List (Solid K)} {c : Combination K}
    (h : ofNamed name parts = .ok c) (calls : List (Call K)) :
    (name ∈ ["union", "intersection", "difference"] ∧ (c.run calls).operation.name = name) ∧
    (c.run calls).parts = parts.map (·.placed (place calls)) ++
      ((c.added calls).map fun a ↦ a.1.placed (place a.2)) ∧
    ((c.run calls).finalized = true ↔
      ∃ before later, calls = before ++ .finalize :: later ∧
        ((c.run before).perform .finalize).fault = none) ∧
    ((c.run calls).finalized = true → (c.run calls).parts ≠ [] ∧ ∀ later,
      (c.run (calls ++ later)).finalized = true ∧
      (c.run (calls ++ later)).parts = (c.run calls).parts.map (·.placed (place later)) ∧
      (c.run (calls ++ later)).parts.map (·.unplaced) = (c.run calls).parts.map (·.unplaced)) ∧
    ∀ call : Call K, (((c.run calls).perform call).fault = none ↔ ¬(c.run calls).Refuses call) ∧
      ∀ fault, ((c.run calls).perform call).fault = some fault →
        ((c.run calls).perform call).state = c.run calls := by
  obtain ⟨operation, hname, rfl⟩ : ∃ operation, Operation.ofName name = .ok operation ∧
      ofParts operation parts = c := by
    simpa only [ofNamed, bind_eq_ok_iff, pure_eq_ok_iff] using h
  refine ⟨?_, parts_run _ calls, finalized_run_iff rfl calls, fun hfinalized ↦ ⟨?_, fun later ↦ ?_⟩,
    fun call ↦ ⟨(effect _ call).fault_eq_none_iff, fun fault ↦ (effect _ call).state_of_fault⟩⟩
  · rw [operation_run, ← Operation.ofName_eq_ok_iff.mp hname]
    exact ⟨operation.name_mem, rfl⟩
  · exact (founded_ofParts operation parts).run calls hfinalized
  · have hparts := parts_run ((ofParts operation parts).run calls) later
    rw [added_of_finalized hfinalized, List.map_nil, List.append_nil, ← run_append] at hparts
    refine ⟨?_, hparts, ?_⟩
    · rw [run_append]
      exact finalized_run hfinalized later
    · rw [hparts]
      simp [Solid.unplaced_placed]

section

/-- A polyhedron of one point and no faces. -/
def dot : Solid ℚ := .polyhedron ⟨[⟨1, 0, 0⟩], [], none⟩

/-- Calls among which the first and the fifth are refused. -/
def attempts : List (Call ℚ) :=
  [.finalize, .add dot, .shift ⟨0, 0, 1⟩, .finalize, .add dot, .shift ⟨1, 0, 0⟩]

/-- The one addition carried out is the only part, moved by what came after it. -/
theorem run_ofNamed_dot :
    ofNamed "difference" [] = .ok (ofParts (K := ℚ) .difference []) ∧
      ((ofParts .difference []).run attempts).finalized = true ∧
      ((ofParts .difference []).run attempts).parts = [.polyhedron ⟨[⟨2, 0, 1⟩], [], none⟩] ∧
      ∀ later, ((ofParts .difference []).run (attempts ++ later)).parts
        = [.polyhedron ⟨[place later ⟨2, 0, 1⟩], [], none⟩] := by
  obtain ⟨-, hparts, -, hkept, -⟩ :=
    run_ofNamed (rfl : ofNamed "difference" [] = .ok (ofParts (K := ℚ) .difference [])) attempts
  have hadded : (ofParts .difference []).added attempts = [(dot, attempts.drop 2)] := rfl
  have hplace : place (attempts.drop 2) (⟨1, 0, 0⟩ : Point3 ℚ) = ⟨2, 0, 1⟩ := by decide +kernel
  have hdot : dot.placed (place (attempts.drop 2)) = .polyhedron ⟨[⟨2, 0, 1⟩], [], none⟩ :=
    congrArg (fun q ↦ Solid.polyhedron ⟨[q], [], none⟩) hplace
  rw [hadded, List.map_nil, List.nil_append, List.map_singleton, hdot] at hparts
  have hfinalized : ((ofParts .difference []).run attempts).finalized = true := rfl
  refine ⟨rfl, hfinalized, hparts, fun later ↦ ?_⟩
  rw [((hkept hfinalized).2 later).2.1, hparts]
  rfl

end

end Combination

end SolidModel
