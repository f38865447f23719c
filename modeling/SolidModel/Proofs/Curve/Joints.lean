import Mathlib
import SolidModel.Proofs.Curve.Calls
import SolidModel.Proofs.Loop.Links

/-!
# The joints of a chain

Along a chain each curve goes on from the one before it: it starts where that one ends, and its first
handle points the way that one arrived. How long the handle is, is up to the call that added the
curve. So the joints are compared with a record of the calls, which notes the length that a call
chose whenever the chain has grown, and the length of the first handle when the chain was closed.

A call that is refused may still have grown the chain, and is then on record like any other. Turning
the first handle touches no joint: the next curve goes on from the other end of the first one.
-/

namespace SolidModel

open VectorOps

variable {K P : Type} [Scalar K] [VectorOps K P]

namespace Chain

variable [Trig K]

/-! ## The record of the calls -/

/-- The handle length of a call between whose start and end the chain has become longer. -/
def gained (before after : Chain P) (call : Call K P) : List K :=
  if before.curves.length < after.curves.length then [call.handleLength] else []

/-- The length of the first handle, for a call that has closed the chain. -/
def closedIn (before after : Chain P) (call : Call K P) : Option K :=
  if before.closed = after.closed then none else call.firstHandleLength?

/-- The handle lengths of all curves that calls in a row have added. -/
def handleLengths (c : Chain P) : List (Call K P) → List K
  | [] => []
  | call :: calls =>
    let after := (c.perform call).state
    gained c after call ++ handleLengths after calls

/-- The length of the first handle, if calls in a row have closed the chain. -/
def seamLength? (c : Chain P) : List (Call K P) → Option K
  | [] => none
  | call :: calls =>
    let after := (c.perform call).state
    (closedIn c after call).or (seamLength? after calls)

/-! ## The invariant -/

/-- `b` starts where `a` ends, with a handle of length `n` in the direction in which `a` arrives. -/
structure Continues (a b : CubicBezier P) (n : K) : Prop where
  start : b.start = a.finish
  control1 : ∃ u, normalized (a.finish - a.control2) = .ok u ∧ b.control1 = a.finish + u * n

private theorem continues_of_handle {a b : CubicBezier P} {n : K} (hstart : b.start = a.finish)
    (h : handle a n = .ok b.control1) : Continues a b n := by
  obtain ⟨u, hu, hcontrol1⟩ := handle_eq_ok_iff.mp h
  exact ⟨hstart, u, hu, hcontrol1.symm⟩

/-- Every curve goes on from the one before it, with handles of the lengths on record. The chain is
closed if there is a length for its first handle, and then the first curve goes on from the last. -/
structure Smooth (c : Chain P) (lengths : List K) (seam : Option K) : Prop where
  segments : ∀ b ∈ c.curves, 1 ≤ b.segments
  joints : List.Forall₂ (fun joint n ↦ Continues joint.1 joint.2 n) (Polyline.links c.curves) lengths
  closed : c.closed = seam.isSome
  seam : ∀ n ∈ seam, Continues c.last c.first n

variable {c : Chain P} {call : Call K P} {b : CubicBezier P} {lengths : List K} {seam : Option K}

theorem Smooth.start_eq {d : CubicBezier P} {j : ℕ} (h : Smooth c lengths seam)
    (hb : c.curves[j]? = some b) (hd : c.curves[j + 1]? = some d) : d.start = b.finish := by
  obtain ⟨hjoints, -⟩ := (List.forall₂_and_left _ _).mp
    (h.joints.imp fun _ _ hjoint ↦ ⟨hjoint.start, hjoint⟩)
  have hlink : (Polyline.links c.curves)[j]? = some (b, d) := by
    rw [curves, Polyline.links_eq_zip, List.getElem?_zip_eq_some]
    rw [curves, List.getElem?_cons_succ] at hd
    exact ⟨hb, hd⟩
  exact hjoints (b, d) (List.mem_of_getElem? hlink)

theorem Smooth.start_first_eq (h : Smooth c lengths seam) (hclosed : c.closed = true) :
    c.first.start = c.last.finish := by
  obtain ⟨n, hn⟩ := Option.isSome_iff_exists.mp (h.closed.symm.trans hclosed)
  exact (h.seam n hn).start

theorem Smooth.one_le {j : ℕ} (h : Smooth c lengths seam) (hb : c.curves[j]? = some b) :
    1 ≤ b.segments :=
  h.segments b (List.mem_of_getElem? hb)

theorem Appends.continues (h : Appends c call b) : Continues c.last b call.handleLength :=
  continues_of_handle (by rw [h.curve, start_curve]) h.handle

theorem Smooth.grown (hc : Smooth c lengths none) (h : Appends c call b) :
    Smooth (c.grown b) (lengths ++ [call.handleLength]) none where
  segments := by
    rw [curves_grown, List.forall_mem_append, List.forall_mem_singleton]
    exact ⟨hc.segments, h.segments⟩
  joints := by
    rw [curves_grown, Polyline.links_concat c.getLast?_curves]
    exact List.rel_append hc.joints (.cons h.continues .nil)
  closed := hc.closed
  seam := fun n hn ↦ absurd hn (Option.not_mem_none n)

/-- Where the chain has more than one curve, turning the first handle leaves all joints alone. -/
theorem Smooth.looped {n : K} {control1 : P} (hc : Smooth c lengths none) (hlater : c.later ≠ [])
    (hfinish : c.last.finish = c.first.start) (hhandle : handle c.last n = .ok control1) :
    Smooth (c.looped control1) lengths (some n) where
  segments := by
    obtain ⟨hfirst, hothers⟩ := List.forall_mem_cons.mp hc.segments
    exact List.forall_mem_cons.mpr ⟨hfirst, hothers⟩
  joints := by
    obtain ⟨b, later, heq⟩ := List.exists_cons_of_ne_nil hlater
    have hjoints := hc.joints
    rw [curves, heq, Polyline.links_cons_cons] at hjoints
    rw [curves_looped, heq, Polyline.links_cons_cons]
    cases hjoints with
    | cons hfirst hothers => exact .cons ⟨hfirst.start, hfirst.control1⟩ hothers
  closed := rfl
  seam := by
    rintro m hm
    obtain rfl := Option.mem_some_iff.mp hm
    rw [last_looped hlater]
    exact continues_of_handle hfinish.symm hhandle

/-- What a call does to the chain and to the record goes together. -/
theorem Smooth.step {t : Transition K (Chain P)} (hc : Smooth c lengths seam) (h : Effect c call t) :
    Smooth t.state (lengths ++ gained c t.state call) (seam.or (closedIn c t.state call)) := by
  have hseam : c.closed = false → seam = none := by
    intro hopen
    rw [← Option.isNone_iff_eq_none, ← Option.not_isSome, ← hc.closed, hopen, Bool.not_false]
  cases h with
  | refused fault =>
    simpa [gained, closedIn] using hc
  | grows b hb =>
    obtain rfl := hseam hb.isOpen
    simpa [gained, closedIn] using hc.grown hb
  | sticks b fault hb =>
    obtain rfl := hseam hb.isOpen
    simpa [gained, closedIn] using hc.grown hb
  | closes b firstLength control1 hb hfinish hlength hhandle =>
    obtain rfl := hseam hb.isOpen
    have hlooped := (hc.grown hb).looped (List.concat_ne_nil b c.later) (by rwa [last_grown])
      (by rwa [last_grown])
    have hopen := hb.isOpen
    simpa [gained, closedIn, curves, Chain.grown, Chain.looped, hopen, hlength] using hlooped

theorem Smooth.run (hc : Smooth c lengths seam) (calls : List (Call K P)) :
    Smooth (c.run calls) (lengths ++ c.handleLengths calls) (seam.or (c.seamLength? calls)) := by
  induction calls generalizing c lengths seam with
  | nil =>
    rw [handleLengths, seamLength?, List.append_nil, Option.or_none]
    exact hc
  | cons call calls ih =>
    rw [handleLengths, seamLength?, ← List.append_assoc, ← Option.or_assoc]
    exact ih (hc.step (effect c call))

theorem smooth_of_start {first : CubicBezier P}
    (h : start first = (.ok c : Except (Fault K) (Chain P))) : Smooth c ([] : List K) none := by
  obtain ⟨hsegments, rfl⟩ := start_eq_ok_iff.mp h
  exact {
    segments := List.forall_mem_singleton.mpr hsegments
    joints := .nil
    closed := rfl
    seam := fun n hn ↦ absurd hn (Option.not_mem_none n) }

/-- Whatever calls are made on a chain that starts with one curve, and whether they are refused or
not, each curve goes on from the one before it and, once the chain is closed, the first from the last.
A closed chain stays as it is. -/
theorem smooth_of_run {first : CubicBezier P}
    (h : start first = (.ok c : Except (Fault K) (Chain P))) (calls : List (Call K P)) :
    Smooth (c.run calls) (c.handleLengths calls) (c.seamLength? calls) ∧
      ((c.run calls).closed = true → ∀ later : List (Call K P),
        (c.run calls).run later = c.run calls) := by
  constructor
  · exact (smooth_of_start h).run calls
  · intro hclosed
    refine run_eq_self fun call b hb ↦ ?_
    exact Bool.false_ne_true (hb.isOpen.symm.trans hclosed)

section

open scoped QuarterTurn

/-- From the end of `bow` down to the axis and back along it, with two calls that are refused. -/
def wayBack : List (Call ℚ (Point2 ℚ)) :=
  [.add 1 ⟨4, 1⟩ ⟨4, 0⟩ 0, .add 2 ⟨4, 1⟩ ⟨4, 0⟩ 3, .close (1 / 2) ⟨0, -1⟩ 3 2,
    .add 1 ⟨1, 1⟩ ⟨1, 2⟩ 1]

theorem smooth_of_run_wayBack :
    Smooth (bow.run wayBack) [2, 1 / 2] (some (3 : ℚ)) ∧
      ∀ later : List (Call ℚ (Point2 ℚ)), (bow.run wayBack).run later = bow.run wayBack := by
  have hstart : start bow.first = (.ok bow : Except (Fault ℚ) _) :=
    Outcome.eq_ok_of_toOption (by decide +kernel)
  have hlengths : bow.handleLengths wayBack = [2, 1 / 2] := by decide +kernel
  have hseam : bow.seamLength? wayBack = some 3 := by decide +kernel
  obtain ⟨hsmooth, hstays⟩ := smooth_of_run hstart wayBack
  rw [hlengths, hseam] at hsmooth
  exact ⟨hsmooth, hstays (by decide +kernel)⟩

end

end Chain

end SolidModel
