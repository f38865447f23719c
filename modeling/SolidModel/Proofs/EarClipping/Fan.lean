import Mathlib
import SolidModel.Proofs.EarClipping.Success
import SolidModel.Proofs.Loop.Series

/-!
# Convex loops

The points of a loop are in convex position if any three of them, in the order of the loop, run
clockwise. This does not depend on where the loop starts, so every corner of a convex loop runs
clockwise, and it does not matter which of them is taken for the leftmost one. The first corner is
always an ear: if its triangle is a sliver no more is asked of it, and otherwise the other points
are beyond its third edge. What is left is convex again and ends in the same vertex, so the run
is known in advance, see `clip_eq_fan`: a fan about the last vertex.
-/

namespace SolidModel

open Point2

variable {K : Type} {u v w : Vertex K} {m rest : List (Vertex K)}

namespace EarClipping

private theorem corners_eq_cons (u v w : Vertex K) (m : List (Vertex K)) :
    ∃ others, Vertex.corners (v :: w :: m ++ [u]) = ⟨u, v, w⟩ :: others := by
  rw [Vertex.corners, Polyline.rotateRight_concat, Polyline.rotateLeft_eq_rotate]
  exact ⟨_, rfl⟩

private theorem links_map_index {count : ℕ} (h : rest.map Vertex.index = List.range (count + 1)) :
    (Polyline.links rest).map (Prod.map Vertex.index Vertex.index)
      = (List.range count).map fun k ↦ (k, k + 1) := by
  rw [← Polyline.links_map, h, ← List.map_id (List.range (count + 1)), Polyline.links_map_range]
  rfl

end EarClipping

variable [Field K] [LinearOrder K] [FloorRing K]

namespace Polyline

variable {l m : List (Point2 K)} {a b c : Point2 K}

/-! ## Convex position -/

/-- Any three points, in the order of the loop, run clockwise. -/
def IsConvex (loop : List (Point2 K)) : Prop := loop.Triplewise fun a b c ↦ doubleArea a b c < 0

instance decidableIsConvex : ∀ loop : List (Point2 K), Decidable (IsConvex loop)
  | [] => .isTrue .nil
  | _ :: loop =>
    have := decidableIsConvex loop
    decidable_of_iff (_ ∧ IsConvex loop) List.triplewise_cons.symm

namespace IsConvex

theorem concat_of_cons (h : IsConvex (a :: l)) : IsConvex (l ++ [a]) := by
  obtain ⟨hfirst, hrest⟩ := List.triplewise_cons.mp h
  refine List.triplewise_append.mpr ⟨hrest, List.triplewise_singleton _ _,
    fun _ _ ↦ List.pairwise_singleton _ _, ?_⟩
  rw [List.forall_mem_singleton]
  refine hfirst.imp fun {b c} hbc ↦ ?_
  rwa [← doubleArea_rotate]

theorem rotate (h : IsConvex l) (n : ℕ) : IsConvex (l.rotate n) := by
  induction n generalizing l with
  | zero => rwa [List.rotate_zero]
  | succ n ih =>
    cases l with
    | nil => rwa [List.rotate_nil]
    | cons a l =>
      rw [List.rotate_cons_succ]
      exact ih h.concat_of_cons

theorem of_isRotated (h : IsConvex l) (hlm : l ~r m) : IsConvex m := by
  obtain ⟨n, rfl⟩ := hlm
  exact h.rotate n

theorem tail (h : IsConvex (a :: l)) : IsConvex l := (List.triplewise_cons.mp h).2

theorem doubleArea_neg (h : IsConvex (a :: b :: c :: l)) : doubleArea a b c < 0 :=
  List.rel_of_pairwise_cons (List.triplewise_cons.mp h).1 List.mem_cons_self

/-- The points in between are left of the line from the first to the last. -/
theorem doubleArea_neg_of_mem (h : IsConvex (a :: l ++ [c])) (hb : b ∈ l) :
    doubleArea a b c < 0 :=
  List.rel_of_pairwise_cons ((List.triplewise_append.mp h).2.2.2 c (List.mem_singleton_self c)) hb

end IsConvex

end Polyline

namespace EarClipping

open Polyline (IsConvex links)

variable {loop : List (Point2 K)}

/-! ## The first corner -/

/-- **The first corner of a convex ring is an ear**, whether or not it is a sliver. -/
theorem isEar_of_isConvex [IsStrictOrderedRing K]
    (h : IsConvex ((v :: w :: m ++ [u]).map Vertex.point)) :
    (⟨u, v, w⟩ : Corner K).isEar (v :: w :: m ++ [u]) = true := by
  rw [List.map_append, List.map_cons, List.map_cons, List.map_singleton] at h
  have hturn : doubleArea u.point v.point w.point < 0 := by
    rw [doubleArea_rotate]
    exact h.doubleArea_neg_of_mem List.mem_cons_self
  refine Corner.isEar_iff.mpr ⟨hturn.le, or_iff_not_imp_left.mpr fun hsliver ↦ ?_⟩
  have hD := (Corner.not_isSliver_iff hturn.le).mp hsliver
  -- the three vertices of the corner are passed over, and the others are beyond its third edge
  have hbeyond : ∀ q ∈ m, ¬InHull u.point v.point w.point q.point := by
    intro q hq hin
    have hqu : doubleArea w.point q.point u.point < 0 :=
      h.tail.doubleArea_neg_of_mem (List.mem_map_of_mem hq)
    have hwu := ((inHull_iff hturn).mp hin).2.2
    rw [doubleArea_swap, doubleArea_rotate] at hwu
    linarith
  rw [Corner.isFree, List.all_eq_true]
  intro q hq
  rw [Bool.or_eq_true, Bool.not_eq_true', ← Bool.not_eq_true, inTriangle_iff hD]
  rw [List.mem_append, List.mem_cons, List.mem_cons, List.mem_singleton] at hq
  rcases hq with (rfl | rfl | hq) | rfl
  · simp [Corner.touches]
  · simp [Corner.touches]
  · exact .inr (hbeyond q hq)
  · simp [Corner.touches]

/-! ## The run -/

/-- **A convex ring is clipped to a fan** about its last vertex. -/
theorem clip_eq_fan [IsStrictOrderedRing K] (h : IsConvex ((v :: rest ++ [u]).map Vertex.point)) :
    clip rest.length (v :: rest ++ [u])
      = .ok ((links (v :: rest)).map fun e ↦ ⟨u, e.1, e.2⟩) := by
  induction rest generalizing v with
  | nil => rfl
  | cons w m ih =>
    obtain ⟨others, hcorners⟩ := corners_eq_cons u v w m
    have hear := isEar_of_isConvex h
    rw [List.length_cons, clip, hcorners, List.find?_cons_of_pos hear]
    have hrest : (v :: w :: m ++ [u]).eraseP (fun x ↦ x.index == v.index) = w :: m ++ [u] :=
      List.eraseP_cons_of_pos (beq_self_eq_true _)
    simp only [hrest, ih h.tail]
    rfl

/-! ## Whole loops -/

private theorem not_isReflex_of_isConvex (h3 : 3 ≤ loop.length) (h : IsConvex loop) :
    ∀ c ∈ Vertex.corners (Vertex.numbered loop), ¬c.isReflex = true := by
  intro c hc
  obtain ⟨others, hrot, -⟩ := (cutsOff_of_mem_corners (by rwa [Vertex.length_numbered])
    (Vertex.nodup_map_index_numbered loop) hc).around
  have hturn := h.of_isRotated (Vertex.map_point_numbered loop ▸ hrot.map Vertex.point)
  rw [Corner.isReflex_iff, not_lt]
  exact hturn.doubleArea_neg.le

/-- **Convex loops are cut into fans.** At any scale, a loop of three points or more in convex
position is triangulated, into the triangles from its last point to its other edges in order. -/
theorem ofLoop_of_isConvex [IsStrictOrderedRing K] (h3 : 3 ≤ loop.length) (h : IsConvex loop) :
    ∃ t, Triangulation.ofLoop loop = .ok t ∧
      t.triangles = (List.range (loop.length - 2)).map fun k ↦ ⟨loop.length - 1, k, k + 1⟩ := by
  have hlen := Vertex.length_numbered loop 0
  obtain ⟨row, u, hrow⟩ := (List.eq_nil_or_concat' (Vertex.numbered loop)).resolve_left
    (List.ne_nil_of_length_pos (by omega))
  rw [hrow, List.length_append, List.length_singleton] at hlen
  obtain ⟨v, rest, rfl⟩ := List.exists_cons_of_length_pos (l := row) (by omega)
  have hcount : loop.length = rest.length + 2 := hlen.symm
  have hindex : (v :: rest).map Vertex.index ++ [u.index] = List.range (rest.length + 1 + 1) := by
    rw [← hcount, ← Vertex.map_index_numbered, hrow, List.map_append, List.map_singleton]
  rw [List.range_succ] at hindex
  obtain ⟨hfirst, hlast⟩ := List.append_singleton_inj.mp hindex
  -- the run, with the vertices by their numbers
  have hclip : ears (Vertex.numbered loop)
      = .ok ((links (v :: rest)).map fun e ↦ ⟨u, e.1, e.2⟩) := by
    rw [ears_eq_clip (by rwa [Vertex.length_numbered]) (not_isReflex_of_isConvex h3 h),
      Vertex.length_numbered, hcount, Nat.add_sub_cancel, hrow]
    exact clip_eq_fan (by rwa [← hrow, Vertex.map_point_numbered])
  refine ⟨_, by rw [Triangulation.ofLoop, hclip]; rfl, ?_⟩
  calc ((links (v :: rest)).map fun e ↦ (⟨u, e.1, e.2⟩ : Corner K)).map Corner.triangle
      = ((links (v :: rest)).map (Prod.map Vertex.index Vertex.index)).map
          fun e ↦ ⟨u.index, e.1, e.2⟩ := by
        rw [List.map_map, List.map_map]
        rfl
    _ = (List.range (loop.length - 2)).map fun k ↦ ⟨loop.length - 1, k, k + 1⟩ := by
        rw [links_map_index hfirst, List.map_map, hlast, hcount]
        rfl

/-- A square with a corner cut off by less than the tolerance. Its first ear is a sliver, and its
last vertex is taken for the leftmost one. -/
def chamfered : List (Point2 ℚ) := [⟨0, 1 / 1000000⟩, ⟨0, 1⟩, ⟨1, 1⟩, ⟨1, 0⟩, ⟨1 / 1000000, 0⟩]

theorem ofLoop_of_isConvex_chamfered : IsConvex chamfered ∧
    ∃ t, Triangulation.ofLoop chamfered = .ok t ∧ t.triangles = [⟨4, 0, 1⟩, ⟨4, 1, 2⟩, ⟨4, 2, 3⟩] :=
  ⟨by decide +kernel, ofLoop_of_isConvex (by decide) (by decide +kernel)⟩

end EarClipping

end SolidModel
