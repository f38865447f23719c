import Mathlib
import SolidModel.Curve.Chain
import SolidModel.Proofs.Outcome
import SolidModel.Proofs.Plane.QuarterTurn

/-!
# Calls on a chain

A chain grows by calls that add a curve or close it, and each of them may be refused. What a call can
do is said once, by `Effect`: it is refused and nothing has happened, or it adds a curve, or it adds
the closing curve and turns the first handle, or it stops between these two steps. All that holds
along a run of calls is proved from these four cases.

The last case is the one in which a refused call leaves something behind. The closing curve then
arrives from nowhere, so that no handle can go on from its end, and there is no way out: every later
call on the chain is refused as well.
-/

namespace SolidModel

open Outcome VectorOps

variable {K P : Type} [Scalar K] [VectorOps K P]

/-- The curve comes to a halt at its end: its last control point is too near to show a direction in
which to go on. -/
def CubicBezier.Stalls [Trig K] (b : CubicBezier P) : Prop :=
  length (b.finish - b.control2) < Scalar.epsilon

theorem VectorOps.normalized_bind_eq_ok_iff [Trig K] {β : Type} {v : P}
    {f : P → Except (Fault K) β} {b : β} :
    normalized v >>= f = .ok b ↔ ¬length v < Scalar.epsilon ∧ f (v / length v) = .ok b := by
  rw [normalized]
  split
  next h => exact iff_of_false (fun hb ↦ nomatch hb) fun hb ↦ hb.1 h
  next h => exact (and_iff_right h).symm

/-- Where a handle of the given length goes on from the end of a curve. -/
def CubicBezier.onward [Trig K] (b : CubicBezier P) (n : K) : P :=
  b.finish + (b.finish - b.control2) / length (b.finish - b.control2) * n

/-! ## Changes that are not refused -/

namespace Transition

variable {State β : Type} {before after : State}

section

omit [Scalar K]

private theorem stopped_ne_done {fault : Fault K} : stopped before fault ≠ .done after :=
  fun h ↦ nomatch congrArg Transition.fault h

private theorem done_eq_done_iff :
    (done before : Transition K State) = .done after ↔ before = after :=
  ⟨congrArg Transition.state, congrArg done⟩

private theorem attempt_eq_done_iff {change : Except (Fault K) State} :
    attempt before change = .done after ↔ change = .ok after := by
  cases change with
  | error fault => exact iff_of_false stopped_ne_done fun h ↦ nomatch h
  | ok between => exact done_eq_done_iff.trans (Except.ok.injEq between after).symm.to_iff

/-- What is computed from the state after a change, where a change that is refused counts as a
failure. -/
theorem settled_eq_ok_iff {t : Transition K State} {f : State → Except (Fault K) β} {b : β} :
    (match t.fault with
      | some fault => Except.error fault
      | none => f t.state) = .ok b ↔ ∃ after, t = .done after ∧ f after = .ok b := by
  obtain ⟨state, _ | fault⟩ := t
  · exact ⟨fun h ↦ ⟨state, rfl, h⟩, fun ⟨_, hdone, h⟩ ↦ done_eq_done_iff.mp hdone ▸ h⟩
  · exact iff_of_false (fun h ↦ nomatch h) fun ⟨_, hdone, _⟩ ↦ stopped_ne_done hdone

end

end Transition

namespace Chain

/-! ## Calls and runs -/

/-- A call that adds a curve or closes a chain. -/
inductive Call (K P : Type) where
  | add (handleLength : K) (control2 finish : P) (segments : Int)
  | close (handleLength : K) (control2 : P) (firstHandleLength : K) (segments : Int)

namespace Call

/-- The length of the handle of the new curve. -/
def handleLength : Call K P → K
  | add length _ _ _ => length
  | close length _ _ _ => length

/-- The length of the first handle, which a closing call turns. -/
def firstHandleLength? : Call K P → Option K
  | add _ _ _ _ => none
  | close _ _ length _ => some length

/-- The new curve from its first handle on, where the chain is `c`. -/
def curve (c : Chain P) (control1 : P) : Call K P → CubicBezier P
  | add _ control2 finish segments => ⟨c.last.finish, control1, control2, finish, segments⟩
  | close _ control2 _ segments => ⟨c.last.finish, control1, control2, c.first.start, segments⟩

end Call

/-- The chain with one more curve. -/
def grown (c : Chain P) (b : CubicBezier P) : Chain P := { c with later := c.later ++ [b] }

/-- The chain closed, with the first handle turned to a point. -/
def looped (c : Chain P) (control1 : P) : Chain P :=
  { c with first := { c.first with control1 }, closed := true }

variable [Trig K]

/-- A call carried out as far as it goes. -/
def perform (c : Chain P) : Call K P → Transition K (Chain P)
  | .add length control2 finish segments => c.add length control2 finish segments
  | .close length control2 firstLength segments => c.close length control2 firstLength segments

/-- The chain after calls in a row, whether they are refused or not. -/
def run (c : Chain P) (calls : List (Call K P)) : Chain P :=
  calls.foldl (fun c call ↦ (c.perform call).state) c

/-- The call would close the open chain with a curve that can be added and then stalls. -/
def StopsHalfway (c : Chain P) : Call K P → Prop
  | .add _ _ _ _ => False
  | .close _ control2 _ segments =>
    c.closed = false ∧ 1 ≤ segments ∧ ¬c.last.Stalls ∧
      length (c.first.start - control2) < Scalar.epsilon

section

omit [Scalar K] [VectorOps K P] [Trig K]

@[simp] theorem curves_grown (c : Chain P) (b : CubicBezier P) :
    (c.grown b).curves = c.curves ++ [b] := rfl

@[simp] theorem last_grown (c : Chain P) (b : CubicBezier P) : (c.grown b).last = b := by
  simp [grown, last]

@[simp] theorem closed_grown (c : Chain P) (b : CubicBezier P) : (c.grown b).closed = c.closed := rfl

@[simp] theorem curves_looped (c : Chain P) (control1 : P) :
    (c.looped control1).curves = { c.first with control1 } :: c.later := rfl

theorem last_looped {c : Chain P} (h : c.later ≠ []) (control1 : P) :
    (c.looped control1).last = c.last := by
  simp [looped, last, List.getLast?_eq_some_getLast h]

@[simp] theorem start_curve (c : Chain P) (control1 : P) (call : Call K P) :
    (call.curve c control1).start = c.last.finish := by
  cases call <;> rfl

end

/-! ## What a call does -/

omit [Scalar K] [VectorOps K P] [Trig K] in
theorem start_eq_ok_iff {first : CubicBezier P} {c : Chain P} :
    start first = (.ok c : Except (Fault K) (Chain P)) ↔
      1 ≤ first.segments ∧ ⟨first, [], false⟩ = c := by
  simp only [start, bind_eq_ok_iff, pure_eq_ok_iff]
  exact ⟨fun ⟨_, hcheck, h⟩ ↦ ⟨Bezier.checkSegments_eq_ok_iff.mp hcheck, h⟩,
    fun ⟨hcheck, h⟩ ↦ ⟨(), Bezier.checkSegments_eq_ok_iff.mpr hcheck, h⟩⟩

theorem handle_eq_ok_iff {b : CubicBezier P} {length : K} {control1 : P} :
    handle b length = .ok control1 ↔
      ∃ u, normalized (b.finish - b.control2) = .ok u ∧ b.finish + u * length = control1 := by
  simp only [handle, bind_eq_ok_iff, pure_eq_ok_iff]

theorem handle_eq_ok_iff_onward {b : CubicBezier P} {length : K} {control1 : P} :
    handle b length = .ok control1 ↔ ¬b.Stalls ∧ b.onward length = control1 := by
  rw [handle, normalized_bind_eq_ok_iff, pure_eq_ok_iff]
  rfl

/-- Whether a handle can go on from a curve does not depend on how long it is to be. -/
theorem exists_handle_eq_ok_iff {b : CubicBezier P} {length : K} :
    (∃ control1, handle b length = .ok control1) ↔ ¬b.Stalls := by
  simp only [handle_eq_ok_iff_onward, exists_and_left, exists_eq', and_true]

private theorem stalls_of_handle_eq_error {b : CubicBezier P} {length : K} {fault : Fault K}
    (h : handle b length = .error fault) : b.Stalls := by
  by_contra hstalls
  obtain ⟨control1, hhandle⟩ : ∃ control1, handle b length = .ok control1 :=
    exists_handle_eq_ok_iff.mpr hstalls
  cases hhandle.symm.trans h

theorem extended_eq_ok_iff {c longer : Chain P} {length : K} {control2 finish : P} {segments : Int} :
    c.extended length control2 finish segments = .ok longer ↔
      1 ≤ segments ∧ ∃ control1, handle c.last length = .ok control1 ∧
        c.grown ⟨c.last.finish, control1, control2, finish, segments⟩ = longer := by
  simp only [extended, bind_eq_ok_iff, pure_eq_ok_iff]
  constructor
  · rintro ⟨_, hcheck, control1, hhandle, rfl⟩
    exact ⟨Bezier.checkSegments_eq_ok_iff.mp hcheck, control1, hhandle, rfl⟩
  · rintro ⟨hsegments, control1, hhandle, rfl⟩
    exact ⟨(), Bezier.checkSegments_eq_ok_iff.mpr hsegments, control1, hhandle, rfl⟩

theorem add_eq_done_iff {c longer : Chain P} (hopen : c.closed = false) {length : K}
    {control2 finish : P} {segments : Int} :
    c.add length control2 finish segments = .done longer ↔
      c.extended length control2 finish segments = .ok longer := by
  rw [add, hopen, if_neg Bool.false_ne_true, Transition.attempt_eq_done_iff]

theorem close_eq_done_iff {c after : Chain P} (hopen : c.closed = false) {length firstLength : K}
    {control2 : P} {segments : Int} :
    c.close length control2 firstLength segments = .done after ↔
      ∃ longer, c.extended length control2 c.first.start segments = .ok longer ∧
        ∃ control1, handle longer.last firstLength = .ok control1 ∧
          longer.looped control1 = after := by
  rw [close, hopen, if_neg Bool.false_ne_true]
  cases c.extended length control2 c.first.start segments with
  | error fault => exact iff_of_false Transition.stopped_ne_done fun ⟨_, h, _⟩ ↦ nomatch h
  | ok longer =>
    simp only [Except.ok.injEq, exists_eq_left']
    split
    next fault hhandle =>
      simp only [hhandle]
      exact iff_of_false Transition.stopped_ne_done fun ⟨_, h, _⟩ ↦ nomatch h
    next control1 hhandle =>
      simp only [hhandle, Except.ok.injEq, exists_eq_left']
      exact Transition.done_eq_done_iff

/-- The call puts `b` at the end of the open chain `c`. -/
structure Appends (c : Chain P) (call : Call K P) (b : CubicBezier P) : Prop where
  isOpen : c.closed = false
  segments : 1 ≤ b.segments
  handle : handle c.last call.handleLength = .ok b.control1
  curve : b = call.curve c b.control1

/-- What a call does: nothing at all; one more curve; the closing curve and nothing else; or the
closing curve, the first handle and the end of all growth. -/
inductive Effect (c : Chain P) (call : Call K P) : Transition K (Chain P) → Prop where
  | refused (fault : Fault K) (hwhole : ¬c.StopsHalfway call) : Effect c call (.stopped c fault)
  | grows (b : CubicBezier P) (h : Appends c call b) : Effect c call (.done (c.grown b))
  | sticks (b : CubicBezier P) (fault : Fault K) (h : Appends c call b)
      (hhalfway : c.StopsHalfway call) (hfinish : b.finish = c.first.start) (hstalls : b.Stalls) :
      Effect c call (.stopped (c.grown b) fault)
  | closes (b : CubicBezier P) (firstLength : K) (control1 : P) (h : Appends c call b)
      (hfinish : b.finish = c.first.start) (hlength : call.firstHandleLength? = some firstLength)
      (hhandle : handle b firstLength = .ok control1) :
      Effect c call (.done ((c.grown b).looped control1))

theorem Appends.not_stalls {c : Chain P} {call : Call K P} {b : CubicBezier P}
    (h : Appends c call b) : ¬c.last.Stalls :=
  exists_handle_eq_ok_iff.mp ⟨b.control1, h.handle⟩

private theorem effect_add (c : Chain P) (handleLength : K) (control2 finish : P) (segments : Int) :
    Effect c (.add handleLength control2 finish segments)
      (c.add handleLength control2 finish segments) := by
  simp only [add, Transition.attempt]
  split
  next => exact .refused _ id
  next hopen =>
    split
    next longer hlonger =>
      obtain ⟨hsegments, control1, hhandle, rfl⟩ := extended_eq_ok_iff.mp hlonger
      exact .grows _ ⟨Bool.eq_false_of_not_eq_true hopen, hsegments, hhandle, rfl⟩
    next fault _ => exact .refused fault id

private theorem effect_close (c : Chain P) (handleLength : K) (control2 : P) (firstLength : K)
    (segments : Int) :
    Effect c (.close handleLength control2 firstLength segments)
      (c.close handleLength control2 firstLength segments) := by
  rw [close]
  split
  next hclosed =>
    exact .refused _ fun hhalfway ↦ absurd (hhalfway.1.symm.trans hclosed) Bool.false_ne_true
  next hopen =>
    split
    next fault hfault =>
      refine .refused fault ?_
      rintro ⟨-, hsegments, hlast, -⟩
      obtain ⟨control1, hhandle⟩ : ∃ control1, handle c.last handleLength = .ok control1 :=
        exists_handle_eq_ok_iff.mpr hlast
      rw [extended_eq_ok_iff.mpr ⟨hsegments, control1, hhandle, rfl⟩] at hfault
      cases hfault
    next longer hlonger =>
      obtain ⟨hsegments, control1, hhandle, rfl⟩ := extended_eq_ok_iff.mp hlonger
      have h : Appends c (.close handleLength control2 firstLength segments)
          ⟨c.last.finish, control1, control2, c.first.start, segments⟩ :=
        ⟨Bool.eq_false_of_not_eq_true hopen, hsegments, hhandle, rfl⟩
      rw [last_grown]
      split
      next fault hfault =>
        have hstalls := stalls_of_handle_eq_error hfault
        exact .sticks _ fault h ⟨h.isOpen, hsegments, h.not_stalls, hstalls⟩ rfl hstalls
      next first hfirst => exact .closes _ firstLength first h rfl rfl hfirst

theorem effect (c : Chain P) (call : Call K P) : Effect c call (c.perform call) := by
  cases call with
  | add length control2 finish segments => exact effect_add c length control2 finish segments
  | close length control2 firstLength segments =>
    exact effect_close c length control2 firstLength segments

/-! ## Calls that are refused -/

variable {c : Chain P} {call : Call K P} {t : Transition K (Chain P)}

theorem Effect.refused_of_not_appends (h : Effect c call t) (hc : ∀ b, ¬Appends c call b) :
    ∃ fault, t = .stopped c fault := by
  cases h with
  | refused fault => exact ⟨fault, rfl⟩
  | grows b hb => exact absurd hb (hc b)
  | sticks b fault hb => exact absurd hb (hc b)
  | closes b firstLength control1 hb => exact absurd hb (hc b)

theorem run_eq_self (hc : ∀ (call : Call K P) (b : CubicBezier P), ¬Appends c call b)
    (calls : List (Call K P)) : c.run calls = c := by
  induction calls with
  | nil => rfl
  | cons call calls ih =>
    obtain ⟨fault, hfault⟩ := (effect c call).refused_of_not_appends (hc call)
    rw [run, List.foldl_cons, hfault]
    exact ih

/-- A refused call leaves the chain as it was, unless it stops halfway. Then the curve back to the
start has been added to the open chain, and from there on every call is refused and does nothing. -/
theorem state_of_refused {fault : Fault K} (h : (c.perform call).fault = some fault) :
    (¬c.StopsHalfway call ∧ (c.perform call).state = c) ∨
      (c.StopsHalfway call ∧ ∃ b : CubicBezier P, (c.perform call).state = c.grown b ∧
        b.start = c.last.finish ∧ b.finish = c.first.start ∧
        ∀ (later : List (Call K P)) (next : Call K P), ∃ fault,
          ((c.grown b).run later).perform next = .stopped (c.grown b) fault) := by
  have heffect := effect c call
  generalize c.perform call = t at h heffect ⊢
  cases heffect with
  | refused _ hwhole => exact .inl ⟨hwhole, rfl⟩
  | grows => cases h
  | sticks b _ hb hhalfway hfinish hstalls =>
    refine .inr ⟨hhalfway, b, rfl, by rw [hb.curve, start_curve], hfinish, fun later next ↦ ?_⟩
    have hstuck : ∀ (call : Call K P) (d : CubicBezier P), ¬Appends (c.grown b) call d := by
      intro call d hd
      exact hd.not_stalls (by rwa [last_grown])
    rw [run_eq_self hstuck later]
    exact (effect (c.grown b) next).refused_of_not_appends (hstuck next)
  | closes => cases h

section

open scoped QuarterTurn

/-- A chain of one curve. -/
def bow : Chain (Point2 ℚ) := ⟨⟨⟨0, 0⟩, ⟨0, 1⟩, ⟨1, 2⟩, ⟨2, 2⟩, 4⟩, [], false⟩

/-- A way back to its start that stalls there. -/
def stall : Call ℚ (Point2 ℚ) := .close 1 ⟨0, 0⟩ 1 4

theorem state_of_refused_bow :
    ∃ b : CubicBezier (Point2 ℚ), (bow.perform stall).state = bow.grown b ∧
      ∀ later next, ∃ fault,
        ((bow.grown b).run later).perform next = .stopped (bow.grown b) fault := by
  obtain ⟨fault, hfault⟩ := Option.isSome_iff_exists.mp
    (by decide +kernel : (bow.perform stall).fault.isSome = true)
  have hne : (bow.perform stall).state ≠ bow := by decide +kernel
  obtain ⟨-, heq⟩ | ⟨-, b, hgrown, -, -, hrefused⟩ := state_of_refused hfault
  · exact absurd heq hne
  · exact ⟨b, hgrown, hrefused⟩

/-- The chain of one curve is one that can be built, and the refused call changes it. -/
theorem state_perform_stall_ne :
    start bow.first = (.ok bow : Except (Fault ℚ) _) ∧
      (bow.perform stall).fault.isSome = true ∧ (bow.perform stall).state ≠ bow :=
  ⟨eq_ok_of_toOption (by decide +kernel), by decide +kernel, by decide +kernel⟩

end

end Chain

end SolidModel
