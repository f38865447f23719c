import Mathlib
import SolidModel.Proofs.EarClipping.Exact
import SolidModel.Proofs.EarClipping.Run
import SolidModel.Proofs.Loop.Sums

/-!
# Sums over the edges of a clipped ring

A value of directed edges that changes its sign with the direction adds up to the same over the
ring and over all ears together, since every cut is passed once in each direction. The value may
look at anything that belongs to the vertices. In particular the ring may be clipped in one place
and the sum taken in another, at the positions where the triangles are put in the end: what a
loop in the plane shares with the loop in space that it was projected from are only its positions.
-/

namespace SolidModel

/-- The corners of a triangle in a sequence of places. -/
def Triangle.points {α : Type} (s : Triangle) (places : List α) : List α :=
  s.toList.filterMap fun i ↦ places[i]?

namespace EarClipping

section AnyNumbers

variable {K : Type} {α : Type}

/-- The vertices of a corner in order. -/
def vertices (c : Corner K) : List (Vertex K) := [c.before, c.tip, c.after]

private theorem points_corner {places : List α} {c : Corner K} {p q r : α}
    (hp : places[c.before.index]? = some p) (hq : places[c.tip.index]? = some q)
    (hr : places[c.after.index]? = some r) : c.triangle.points places = [p, q, r] := by
  simp only [Triangle.points, Triangle.toList, Corner.triangle, List.filterMap_cons, hp, hq, hr,
    List.filterMap_nil]

private theorem points_triangle {loop : List (Point2 K)} {places : List α}
    (hlen : places.length = loop.length) {c : Corner K} (hc : vertices c ⊆ Vertex.numbered loop)
    (a : α) : c.triangle.points places = (vertices c).map fun v ↦ places.getD v.index a := by
  have hget : ∀ v ∈ vertices c, places[v.index]? = some (places.getD v.index a) := by
    intro v hv
    have hmem := List.mem_map_of_mem (f := Vertex.index) (hc hv)
    rw [Vertex.map_index_numbered, List.mem_range, ← hlen] at hmem
    rw [List.getD_eq_getElem?_getD, List.getElem?_eq_getElem hmem, Option.getD_some]
  simp only [vertices, List.forall_mem_cons] at hget
  obtain ⟨hb, ht, ha, -⟩ := hget
  exact points_corner hb ht ha

theorem points_triangle_numbered {loop : List (Point2 K)} {c : Corner K}
    (hc : vertices c ⊆ Vertex.numbered loop) :
    c.triangle.points loop = [c.before.point, c.tip.point, c.after.point] := by
  simp only [vertices, List.cons_subset, Vertex.mem_numbered_iff] at hc
  obtain ⟨hb, ht, ha, -⟩ := hc
  exact points_corner hb ht ha

variable [Scalar K] {ring : List (Vertex K)} {ears : List (Corner K)} {G : Type} [AddCommGroup G]

/-- **Sums over the ring are sums over the ears.** -/
theorem Clipping.edgeSum_vertices {f : Vertex K × Vertex K → G} (hf : Polyline.Alternates f)
    (h : Clipping ring ears) : Polyline.edgeSum f ring
      = (ears.map fun c ↦ Polyline.edgeSum f (vertices c)).sum := by
  induction h with
  | @pair ring hring =>
    obtain ⟨a, b, rfl⟩ := List.length_eq_two.mp hring
    exact Polyline.edgeSum_pair hf a b
  | @ear ring ear rest ears hcut _ _ ih =>
    obtain ⟨others, hrot, hrot'⟩ := hcut.around
    have hrest : rest ~r ear.after :: others ++ [ear.before] :=
      hrot'.trans (List.isRotated_concat _ _).symm
    rw [List.map_cons, List.sum_cons, ← ih, Polyline.edgeSum_of_isRotated hrot,
      Polyline.edgeSum_of_isRotated hrest]
    exact Polyline.edgeSum_cut hf ear.before ear.after [ear.tip] others

/-- **Sums over the places of a loop are sums over its triangles.** -/
theorem edgeSum_of_ofLoop {loop : List (Point2 K)} {t : Triangulation} {places : List α}
    {f : α × α → G} (hf : Polyline.Alternates f) (hlen : places.length = loop.length)
    (h : Triangulation.ofLoop loop = .ok t) :
    (t.triangles.map fun s ↦ Polyline.edgeSum f (s.points places)).sum
      = Polyline.edgeSum f places := by
  obtain ⟨h3, ears, hclip, rfl⟩ := clipping_of_ofLoop h
  obtain ⟨a, ha⟩ : ∃ a, a ∈ places := List.exists_mem_of_length_pos (by omega)
  have hplaces : (Vertex.numbered loop).map (fun v ↦ places.getD v.index a) = places := by
    have hrange : (List.range places.length).map (fun i ↦ places.getD i a) = places :=
      List.ext_getElem (by simp) fun i _ hi ↦ by simp [List.getD_eq_getElem?_getD, hi]
    rw [hlen, ← Vertex.map_index_numbered, List.map_map] at hrange
    exact hrange
  have hsum := hclip.edgeSum_vertices (hf.map fun v ↦ places.getD v.index a)
  rw [← Polyline.edgeSum_map, hplaces] at hsum
  rw [hsum, ofEars, List.map_map]
  refine congrArg List.sum (List.map_congr_left fun c hc ↦ ?_)
  have hsub : vertices c ⊆ Vertex.numbered loop := by
    obtain ⟨hb, ht, ha⟩ := hclip.mem_ring hc
    simp [vertices, hb, ht, ha]
  rw [← Polyline.edgeSum_map, ← points_triangle hlen hsub a]
  rfl

end AnyNumbers

/-! ## Exact numbers -/

section Exact

variable {K : Type} [Field K] [LinearOrder K] [FloorRing K]
variable {ring : List (Vertex K)} {ears : List (Corner K)}

theorem Clipping.isEar (h : Clipping ring ears) :
    ∀ c ∈ ears, Point2.doubleArea c.before.point c.tip.point c.after.point ≤ 0 := by
  induction h with
  | pair => simp
  | ear _ hear _ ih => exact List.forall_mem_cons.mpr ⟨Corner.doubleArea_nonpos_of_isEar hear, ih⟩

end Exact

end EarClipping

end SolidModel
