import Mathlib
import SolidModel.Proofs.EarClipping.Diagonals
import SolidModel.Proofs.EarClipping.Sums
import SolidModel.Proofs.Polygon.Interior

/-!
# How often the triangles cover a point

Whatever ears are taken, sums over the edges of the ring split into sums over the edges of the
ears. For winding numbers this says that the triangles cover each point as often as the ring
winds around it, clockwise: an ear never turns counter-clockwise, so it counts minus one inside
and nothing outside, and an ear without area has no inside. Nothing is asked of the loop here,
not even that it is simple, and nothing of the order in which the ears are found.
-/

namespace SolidModel

open Point2

variable {K : Type} [Field K] [LinearOrder K] [IsStrictOrderedRing K] [FloorRing K]
variable {loop : List (Point2 K)} {t : Triangulation} {q : Point2 K}

/-- Is `q` in the closed triangle with these positions? -/
def Triangle.Holds (loop : List (Point2 K)) (q : Point2 K) (s : Triangle) : Prop :=
  ∃ a ∈ loop[s.a]?, ∃ b ∈ loop[s.b]?, ∃ c ∈ loop[s.c]?, InHull a b c q

instance (loop : List (Point2 K)) (q : Point2 K) : DecidablePred (Triangle.Holds loop q) :=
  fun _ ↦ inferInstanceAs (Decidable (∃ _ ∈ _, ∃ _ ∈ _, ∃ _ ∈ _, _))

/-- Is `q` on no edge of a triangle? -/
def Triangulation.Avoids (loop : List (Point2 K)) (t : Triangulation) (q : Point2 K) : Prop :=
  ∀ e ∈ t.edges, ∀ a ∈ loop[e.1]?, ∀ b ∈ loop[e.2]?, ¬OnSegment a b q

instance (loop : List (Point2 K)) (t : Triangulation) (q : Point2 K) :
    Decidable (t.Avoids loop q) :=
  inferInstanceAs (Decidable (∀ _ ∈ _, ∀ _ ∈ _, ∀ _ ∈ _, _))

/-- How many triangles hold `q`. -/
def Triangulation.cover (loop : List (Point2 K)) (t : Triangulation) (q : Point2 K) : ℕ :=
  t.triangles.countP fun s ↦ s.Holds loop q

namespace EarClipping

/-- The points of a corner in order. -/
def points (c : Corner K) : List (Point2 K) := [c.before.point, c.tip.point, c.after.point]

omit [IsStrictOrderedRing K] in
theorem Clipping.edgeSum_eq {G : Type} [AddCommGroup G] {f : Point2 K × Point2 K → G}
    (hf : Polyline.Alternates f) {ring : List (Vertex K)} {ears : List (Corner K)}
    (h : Clipping ring ears) : Polyline.edgeSum f (ring.map Vertex.point)
      = (ears.map fun c ↦ Polyline.edgeSum f (points c)).sum := by
  rw [Polyline.edgeSum_map, h.edgeSum_vertices (hf.map Vertex.point)]
  exact congrArg List.sum (List.map_congr_left fun c _ ↦ (Polyline.edgeSum_map _ (vertices c)).symm)

private theorem sum_map_eq_neg_countP {α : Type} {f : α → ℤ} {p : α → Prop} [DecidablePred p]
    {l : List α} (h : ∀ a ∈ l, f a = if p a then -1 else 0) :
    (l.map f).sum = -(l.countP p : ℤ) := by
  induction l with
  | nil => rfl
  | cons a l ih =>
    obtain ⟨ha, hl⟩ := List.forall_mem_cons.mp h
    rw [List.map_cons, List.sum_cons, List.countP_cons, ha, ih hl]
    by_cases hp : p a
    · rw [if_pos hp, if_pos (by simpa using hp)]
      push_cast
      ring
    · rw [if_neg hp, if_neg (by simpa using hp)]
      push_cast
      ring

/-- An ear counts minus one for the points that its triangle holds. -/
private theorem winding_points {c : Corner K}
    (hD : doubleArea c.before.point c.tip.point c.after.point ≤ 0)
    (hb : c.before ∈ Vertex.numbered loop) (ht : c.tip ∈ Vertex.numbered loop)
    (ha : c.after ∈ Vertex.numbered loop) (hq : Polyline.Avoids (points c) q) :
    Polyline.winding (points c) q = if c.triangle.Holds loop q then -1 else 0 := by
  rw [Vertex.mem_numbered_iff] at hb ht ha
  have hholds : c.triangle.Holds loop q
      ↔ InHull c.before.point c.tip.point c.after.point q := by
    simp [Triangle.Holds, Corner.triangle, hb, ht, ha]
  split
  next h => exact Polyline.winding_triangle_of_inHull hD hq (hholds.mp h)
  next h => exact Polyline.winding_triangle_of_not_inHull hD (mt hholds.mpr h)

/-- **The triangles cover each point as often as the loop winds around it.** -/
theorem cover_eq_neg_winding (h : Triangulation.ofLoop loop = .ok t) (hq : t.Avoids loop q) :
    (t.cover loop q : ℤ) = -Polyline.winding loop q := by
  obtain ⟨-, ears, hclip, rfl⟩ := clipping_of_ofLoop h
  have hsum := hclip.edgeSum_eq (Polyline.alternates_crossing q)
  rw [Vertex.map_point_numbered] at hsum
  have hcount : ∀ c ∈ ears, Polyline.edgeSum (Polyline.crossing q) (points c)
      = if c.triangle.Holds loop q then -1 else 0 := by
    intro c hc
    obtain ⟨hb, ht, ha⟩ := hclip.mem_ring hc
    refine winding_points (hclip.isEar c hc) hb ht ha ?_
    rw [Vertex.mem_numbered_iff] at hb ht ha
    have hedge : ∀ e ∈ c.triangle.edges, e ∈ (ofEars ears).edges := fun e he ↦
      List.mem_flatMap.mpr ⟨c.triangle, List.mem_map_of_mem hc, he⟩
    intro e he
    rw [points, Polyline.cyclicPairs_corner] at he
    simp only [List.cons_append, List.nil_append, Polyline.links_cons_cons,
      Polyline.links_singleton, List.mem_cons, List.not_mem_nil, or_false] at he
    rcases he with rfl | rfl | rfl
    · exact hq (c.before.index, c.tip.index) (hedge _ (.head _)) _ hb _ ht
    · exact hq (c.tip.index, c.after.index) (hedge _ (.tail _ (.head _))) _ ht _ ha
    · exact hq (c.after.index, c.before.index) (hedge _ (.tail _ (.tail _ (.head _)))) _ ha _ hb
  rw [Polyline.winding, hsum, sum_map_eq_neg_countP hcount, neg_neg, Triangulation.cover, ofEars,
    List.countP_map]
  rfl

omit [IsStrictOrderedRing K] in
private theorem avoids_loop (h : t.Fills loop.length) (hq : t.Avoids loop q) :
    Polyline.Avoids loop q := by
  intro e he
  obtain ⟨i, hi, rfl⟩ := List.mem_iff_getElem.mp he
  rw [Polyline.length_cyclicPairs] at hi
  have hj : (i + 1) % loop.length < loop.length := Nat.mod_lt _ (by omega)
  have hedge : (i, (i + 1) % loop.length) ∈ t.edges := by
    have hborder := h.spans.along (i, (i + 1) % loop.length)
      (List.mem_map.mpr ⟨i, List.mem_range.mpr hi, rfl⟩)
    exact List.count_pos_iff.mp (by omega)
  have hget := Polyline.get_cyclicPairs loop i hi
  rw [List.get_eq_getElem] at hget
  rw [hget]
  exact hq _ hedge _ (List.getElem?_eq_getElem hi) _ (List.getElem?_eq_getElem hj)

/-- **The triangles cover the inside exactly once.** Whatever list of points is triangulated,
the number of triangles that hold a point off their edges is minus the winding number of the
loop around it. Of a simple clockwise loop this is one for the points inside and zero for those
outside. -/
theorem cover_of_ofLoop (h : Triangulation.ofLoop loop = .ok t) (hq : t.Avoids loop q) :
    (t.cover loop q : ℤ) = -Polyline.winding loop q ∧
    (Polyline.IsSimple loop → Polyline.signedArea loop < 0 →
      (Polyline.IsInside loop q → t.cover loop q = 1) ∧
      (¬Polyline.IsInside loop q → t.cover loop q = 0)) := by
  have hcover := cover_eq_neg_winding h hq
  refine ⟨hcover, fun hsimple harea ↦ ?_⟩
  obtain ⟨hin, hout⟩ := hsimple.winding_eq (Polyline.signedArea_neg_iff.mp harea)
    (avoids_loop (fills_of_ofLoop h) hq)
  constructor
  · intro hq
    rw [hin hq] at hcover
    omega
  · intro hq
    rw [hout hq] at hcover
    omega

/-- A point below the notch of a loop, and one within the notch. -/
theorem cover_of_ofLoop_notched :
    notchedTriangles.cover notched ⟨1 / 2, 2⟩ = 1 ∧ notchedTriangles.cover notched ⟨2, 3⟩ = 0 := by
  have h : Triangulation.ofLoop notched = .ok notchedTriangles :=
    Outcome.eq_ok_of_toOption (by decide +kernel)
  have hsimple : Polyline.IsSimple notched :=
    .of_mul_pos (by decide) (by decide +kernel) (by decide +kernel)
  have harea : Polyline.signedArea notched < 0 := by decide +kernel
  have hp : notchedTriangles.Avoids notched ⟨1 / 2, 2⟩ := by decide +kernel
  have hq : notchedTriangles.Avoids notched ⟨2, 3⟩ := by decide +kernel
  exact ⟨((cover_of_ofLoop h hp).2 hsimple harea).1 (by decide +kernel),
    ((cover_of_ofLoop h hq).2 hsimple harea).2 (by decide +kernel)⟩

end EarClipping

end SolidModel
