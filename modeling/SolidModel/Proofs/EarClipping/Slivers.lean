import Mathlib
import SolidModel.Proofs.EarClipping.Success
import SolidModel.Proofs.EarClipping.Sums

/-!
# Slivers are counted where they are found

A triangulation remarks on its slivers if they are more than half of its triangles. They can be
counted in two places. The search for an ear stops at a corner that is a sliver without looking any
further, so it may count it there and then; what is remarked in the end is this count. Or the
triangles that are returned may be judged by their points. Both counts are the same: the search
counts only the corner that it stops at, each of these is cut off, and cut off once, and its
triangle has its points in their order.

The remark goes to a log after the last triangle. So whoever is refused has left nothing there.
-/

namespace SolidModel

variable {K : Type} [Scalar K]

/-- Is the triangle too thin, by its points in a loop in their order? -/
def Triangle.isSliver (loop : List (Point2 K)) (s : Triangle) : Bool :=
  match s.points loop with
  | [a, b, c] => Point2.isSliver a b c
  | _ => false

theorem Triangulation.notices_ne_nil_iff (t : Triangulation) :
    t.notices ≠ [] ↔ t.triangles.length < t.slivers * 2 := by
  rw [notices]
  split
  next h => exact iff_of_true (List.cons_ne_nil _ _) h
  next h => exact iff_of_false (· rfl) h

namespace EarClipping

variable {loop : List (Point2 K)} {t : Triangulation}

/-! ## Slivers among the triangles -/

private theorem countP_isSliver (h : Triangulation.ofLoop loop = .ok t) :
    t.triangles.countP (·.isSliver loop) = t.slivers := by
  obtain ⟨-, ears, hclip, rfl⟩ := clipping_of_ofLoop h
  rw [ofEars, List.countP_map]
  refine List.countP_congr fun c hc ↦ ?_
  obtain ⟨hb, ht, ha⟩ := hclip.mem_ring hc
  have hpoints : c.triangle.points loop = _ :=
    points_triangle_numbered (by simp [vertices, hb, ht, ha])
  rw [Function.comp_apply, Triangle.isSliver, hpoints, Corner.isSliver]

/-! ## Counting during the search -/

/-- The first corner that can be clipped, and how many slivers there have been by then. -/
def search (ring : List (Vertex K)) (slivers : ℕ) : List (Corner K) → Option (Corner K × ℕ)
  | [] => none
  | c :: corners =>
    if c.isReflex then search ring slivers corners
    else if c.isSliver then some (c, slivers + 1)
    else if c.isFree ring then some (c, slivers)
    else search ring slivers corners

/-- Clips `count` ears off a ring, behind the triangles that there are, and counts the slivers. -/
def clipCounting : (count : ℕ) → List (Vertex K) → List Triangle → (slivers : ℕ) →
    Except (Fault K) (List Triangle × ℕ)
  | 0, _, triangles, slivers => .ok (triangles, slivers)
  | count + 1, ring, triangles, slivers =>
    match search ring slivers (Vertex.corners ring) with
    | none => .error (.noEar ring.length)
    | some (ear, slivers) =>
      clipCounting count (ring.eraseP fun v ↦ v.index == ear.tip.index)
        (triangles ++ [ear.triangle]) slivers

/-- The search goes past a corner that is no ear without counting it, and an ear is counted if it
is a sliver. -/
private theorem search_eq (ring : List (Vertex K)) (slivers : ℕ) (corners : List (Corner K)) :
    search ring slivers corners = (corners.find? (·.isEar ring)).map fun ear ↦
      (ear, slivers + [ear].countP Corner.isSliver) := by
  induction corners with
  | nil => rfl
  | cons c corners ih =>
    rw [search, List.find?_cons, Corner.isEar, ih]
    cases hreflex : c.isReflex <;> cases hsliver : c.isSliver <;> cases hfree : c.isFree ring <;>
      simp [hsliver]

private theorem clipCounting_eq (count : ℕ) (ring : List (Vertex K)) (triangles : List Triangle)
    (slivers : ℕ) :
    clipCounting count ring triangles slivers = (clip count ring).map fun ears ↦
      (triangles ++ ears.map Corner.triangle, slivers + ears.countP Corner.isSliver) := by
  induction count generalizing ring triangles slivers with
  | zero => simp [clipCounting, clip, Except.map]
  | succ count ih =>
    rw [clipCounting, clip, search_eq]
    cases (Vertex.corners ring).find? (·.isEar ring) with
    | none => rfl
    | some ear =>
      simp only [Option.map_some, ih]
      cases clip count (ring.eraseP fun v ↦ v.index == ear.tip.index) with
      | error fault => rfl
      | ok rest =>
        simp only [Except.map, bind, Except.bind, pure, Except.pure, List.map_cons,
          List.append_assoc, List.singleton_append]
        rw [← List.singleton_append (l := rest), List.countP_append, Nat.add_assoc]

/-- The triangles of a clockwise loop, and how many slivers have been counted. -/
def counted (loop : List (Point2 K)) : Except (Fault K) (List Triangle × ℕ) :=
  let ring := Vertex.numbered loop
  match Vertex.corners ring with
  | first :: second :: third :: others =>
    if (Corner.leftmost first (second :: third :: others)).isReflex then .error .notClockwise
    else clipCounting (ring.length - 2) ring [] 0
  | _ => .error (.tooFewPoints ring.length)

theorem counted_eq (loop : List (Point2 K)) :
    counted loop = (Triangulation.ofLoop loop).map fun t ↦ (t.triangles, t.slivers) := by
  simp only [counted, Triangulation.ofLoop, ears, clipCounting_eq]
  generalize Vertex.corners (Vertex.numbered loop) = corners
  rcases corners with _ | ⟨first, _ | ⟨second, _ | ⟨third, others⟩⟩⟩
  case cons.cons.cons =>
    cases hreflex : (Corner.leftmost first (second :: third :: others)).isReflex with
    | true => simp [Except.map, hreflex]
    | false =>
      simp only [hreflex, Bool.false_eq_true, if_false]
      cases clip _ (Vertex.numbered loop) with
      | error fault => rfl
      | ok ears => simp [Except.map, ofEars]
  all_goals rfl

/-! ## The log -/

/-- The triangles of a clockwise loop. A remark on its slivers goes to the log. -/
def logged (loop : List (Point2 K)) :
    ExceptT (Fault K) (StateM (List SliverNotice)) (List Triangle) := do
  let (triangles, slivers) ← ExceptT.mk (pure (counted loop))
  if triangles.length < slivers * 2 then
    modify (· ++ [⟨slivers, triangles.length⟩])
  return triangles

private theorem logged_of_error {fault : Fault K} (h : Triangulation.ofLoop loop = .error fault)
    (log : List SliverNotice) : (logged loop).run log = (.error fault, log) := by
  rw [logged, counted_eq, h]
  rfl

private theorem logged_of_ok (h : Triangulation.ofLoop loop = .ok t) (log : List SliverNotice) :
    (logged loop).run log = (.ok t.triangles, log ++ t.notices) := by
  have hcall : logged loop = (do
      if t.triangles.length < t.slivers * 2 then
        modify (· ++ [⟨t.slivers, t.triangles.length⟩])
      return t.triangles) := by
    rw [logged, counted_eq, h]
    rfl
  rw [hcall, Triangulation.notices]
  split
  · rfl
  · rw [List.append_nil]
    rfl

/-- **A remark is made exactly if most triangles are slivers.** Whatever the points, a call goes on
from the log as it is. It adds to it if it returns triangles of which more than half are slivers by
their points, and then once, with how many these are and how many there are of all. A call that is
refused adds nothing. -/
theorem logged_eq (loop : List (Point2 K)) (log : List SliverNotice) :
    ∃ added, (logged loop).run log
        = ((Triangulation.ofLoop loop).map Triangulation.triangles, log ++ added) ∧
      (added ≠ [] ↔ ∃ t, Triangulation.ofLoop loop = .ok t ∧
        t.triangles.length < 2 * t.triangles.countP (·.isSliver loop)) ∧
      (∀ t, Triangulation.ofLoop loop = .ok t → added = t.notices ∧
        (added ≠ [] → added = [⟨t.triangles.countP (·.isSliver loop), loop.length - 2⟩])) ∧
      ∀ fault, Triangulation.ofLoop loop = .error fault → added = [] := by
  cases h : Triangulation.ofLoop loop with
  | error fault =>
    refine ⟨[], ?_, ?_, nofun, fun _ _ ↦ rfl⟩
    · rw [logged_of_error h, List.append_nil, Except.map]
    · exact iff_of_false (· rfl) fun ⟨t, ht, _⟩ ↦ nomatch ht
  | ok t =>
    have hlength := (fills_of_ofLoop h).length_triangles
    have hnotices := t.notices_ne_nil_iff
    refine ⟨t.notices, ?_, ?_, fun s hs ↦ ?_, nofun⟩
    · rw [logged_of_ok h, Except.map]
    · rw [hnotices, Nat.mul_comm]
      constructor
      · exact fun hmany ↦ ⟨t, rfl, by rwa [countP_isSliver h]⟩
      · rintro ⟨s, hs, hmany⟩
        obtain rfl : t = s := Except.ok.inj hs
        rwa [countP_isSliver h] at hmany
    · obtain rfl : t = s := Except.ok.inj hs
      refine ⟨rfl, fun hmany ↦ ?_⟩
      rw [Triangulation.notices, if_pos (hnotices.mp hmany), countP_isSliver h, hlength]

/-- A square with three more points on its first side, which run straight on. -/
def flatSide : List (Point2 ℚ) :=
  [⟨0, 1 / 4⟩, ⟨0, 1 / 2⟩, ⟨0, 3 / 4⟩, ⟨0, 1⟩, ⟨1, 1⟩, ⟨1, 0⟩, ⟨0, 0⟩]

/-- It is remarked on. Of the pinched loop a sliver is counted before the clipper runs out of ears,
and nothing is remarked. -/
theorem logged_eq_flatSide :
    (logged flatSide).run [] = (.ok [⟨6, 0, 1⟩, ⟨6, 1, 2⟩, ⟨6, 2, 3⟩, ⟨6, 3, 4⟩, ⟨6, 4, 5⟩],
      [⟨3, 5⟩]) ∧
    ∃ fault, (logged pinched).run [] = (.error fault, []) := by
  have hloop : Triangulation.ofLoop flatSide
      = .ok ⟨[⟨6, 0, 1⟩, ⟨6, 1, 2⟩, ⟨6, 2, 3⟩, ⟨6, 3, 4⟩, ⟨6, 4, 5⟩], 3⟩ :=
    Outcome.eq_ok_of_toOption (by decide +kernel)
  have hpinched : (Triangulation.ofLoop pinched).toOption = none := by decide +kernel
  obtain ⟨added, hrun, -, hadded, -⟩ := logged_eq flatSide []
  obtain ⟨rest, hrefused, -, -, hrest⟩ := logged_eq pinched []
  refine ⟨?_, ?_⟩
  · rw [hrun, hloop, (hadded _ hloop).1]
    rfl
  · cases h : Triangulation.ofLoop pinched with
    | ok t =>
      rw [h] at hpinched
      cases hpinched
    | error fault =>
      refine ⟨fault, ?_⟩
      rw [hrefused, h, hrest fault h]
      rfl

end EarClipping

end SolidModel
