import Mathlib
import SolidModel.Proofs.EarClipping.Run
import SolidModel.Proofs.Loop.Spans
import SolidModel.Proofs.Outcome
import SolidModel.Proofs.Plane.Exact

/-!
# The edges of a clipped ring

The triangles of a clipped ring run along every edge of the ring once, in its direction, and
along every diagonal that was cut once in each direction. The step that matters is
`Spans.cons_ear`; the rest is that a ring of ascending numbers stays one when an ear is clipped,
up to where it starts, so that each triangle ascends too.

Nothing here looks at coordinates. The numbers may be of any type, so the statements hold for
doubles with all their exceptional values.
-/

namespace SolidModel

/-! ## Triangulations of numbered rings -/

namespace Triangle

/-- The directed edges around a triangle. -/
def edges (t : Triangle) : List (ℕ × ℕ) := [(t.a, t.b), (t.b, t.c), (t.c, t.a)]

/-- The triangle runs through three positions below `n` in ascending order, from any of them. -/
def Ascends (n : ℕ) (t : Triangle) : Prop :=
  ∃ i j k, i < j ∧ j < k ∧ k < n ∧ (t = ⟨i, j, k⟩ ∨ t = ⟨j, k, i⟩ ∨ t = ⟨k, i, j⟩)

theorem edges_reversed_perm (t : Triangle) :
    t.reversed.edges.Perm (t.edges.map Prod.swap) := by
  change [(t.c, t.b), (t.b, t.a), (t.a, t.c)].Perm [(t.b, t.a), (t.c, t.b), (t.a, t.c)]
  exact List.Perm.swap _ _ _

end Triangle

namespace Triangulation

/-- The directed edges around all triangles. -/
def edges (t : Triangulation) : List (ℕ × ℕ) := t.triangles.flatMap Triangle.edges

/-- The triangles fill the ring of the positions below `n`: there are two fewer of them than
positions, each runs the way the ring does, and together they span the ring. -/
structure Fills (t : Triangulation) (n : ℕ) : Prop where
  three_le : 3 ≤ n
  length_triangles : t.triangles.length = n - 2
  ascends : ∀ s ∈ t.triangles, s.Ascends n
  spans : Spans ((List.range n).map fun i ↦ (i, (i + 1) % n)) t.edges

theorem Fills.lt_of_mem_edges {t : Triangulation} {n : ℕ} (h : t.Fills n) {e : ℕ × ℕ}
    (he : e ∈ t.edges) : e.1 < n ∧ e.2 < n ∧ e.1 ≠ e.2 := by
  obtain ⟨s, hs, he⟩ := List.mem_flatMap.mp he
  obtain ⟨i, j, k, hij, hjk, hk, rfl | rfl | rfl⟩ := h.ascends s hs <;>
  · simp only [Triangle.edges, List.mem_cons, List.not_mem_nil, or_false] at he
    rcases he with rfl | rfl | rfl <;> simp only <;> omega

theorem edges_reversed_perm (t : Triangulation) :
    t.reversed.edges.Perm (t.edges.map Prod.swap) := by
  rw [edges, edges, reversed, List.map_flatMap, List.flatMap_map]
  generalize t.triangles = ts
  induction ts with
  | nil => exact List.Perm.refl _
  | cons s ts ih =>
    rw [List.flatMap_cons, List.flatMap_cons]
    exact s.edges_reversed_perm.append ih

theorem count_edges_reversed (t : Triangulation) (e : ℕ × ℕ) :
    t.reversed.edges.count e = t.edges.count e.swap := by
  rw [t.edges_reversed_perm.count_eq]
  conv_lhs => rw [← Prod.swap_swap e]
  exact List.count_map_of_injective t.edges Prod.swap Prod.swap_injective e.swap

end Triangulation

namespace EarClipping

variable {K : Type} [Scalar K]

theorem cyclicPairs_range (n : ℕ) :
    Polyline.cyclicPairs (List.range n) = (List.range n).map fun i ↦ (i, (i + 1) % n) := by
  refine List.ext_getElem (by simp) fun i h1 h2 ↦ ?_
  refine (Polyline.get_cyclicPairs _ i (by simpa using h2)).trans ?_
  simp

/-- Three neighbours in a ring of ascending numbers ascend, from one of them on. -/
private theorem ascends_of_isRotated {l others : List ℕ} {p t n N : ℕ} (hl : l.Pairwise (· < ·))
    (hN : ∀ i ∈ l, i < N) (h : l ~r p :: t :: n :: others) :
    Triangle.Ascends N ⟨p, t, n⟩ := by
  obtain ⟨x, y, rfl, hxy⟩ : ∃ x y, l = x ++ y ∧ y ++ x = p :: t :: n :: others := by
    obtain ⟨k, hk⟩ := h
    exact ⟨l.take (k % l.length), l.drop (k % l.length), (List.take_append_drop _ _).symm,
      by rw [← hk, List.rotate_eq_drop_append_take_mod]⟩
  obtain ⟨hx, hy, hlt⟩ := List.pairwise_append.mp hl
  have hmem : ∀ i ∈ p :: t :: n :: others, i < N := by
    intro i hi
    rw [← hxy] at hi
    exact hN i (by simpa [or_comm] using hi)
  simp only [List.mem_cons, forall_eq_or_imp] at hmem
  obtain ⟨hp, ht, hn, -⟩ := hmem
  -- the cases are how many of the three come before the place where the numbers start again
  match y, hxy with
  | [], hxy =>
    rw [List.nil_append] at hxy
    subst hxy
    simp only [List.pairwise_cons, List.mem_cons, forall_eq_or_imp] at hx
    exact ⟨p, t, n, hx.1.1, hx.2.1.1, hn, .inl rfl⟩
  | [a], hxy =>
    rw [List.singleton_append, List.cons.injEq] at hxy
    obtain ⟨rfl, rfl⟩ := hxy
    simp only [List.pairwise_cons, List.mem_cons, forall_eq_or_imp] at hx hlt
    exact ⟨t, n, a, hx.1.1, hlt.2.1.1, hp, .inr (.inr rfl)⟩
  | [a, b], hxy =>
    simp only [List.cons_append, List.nil_append, List.cons.injEq] at hxy
    obtain ⟨rfl, rfl, rfl⟩ := hxy
    simp only [List.pairwise_cons, List.mem_cons, forall_eq_or_imp, List.not_mem_nil,
      false_imp_iff, implies_true, and_true] at hlt hy
    exact ⟨n, a, b, hlt.1.1, hy.1, ht, .inr (.inl rfl)⟩
  | a :: b :: c :: y, hxy =>
    simp only [List.cons_append, List.cons.injEq] at hxy
    obtain ⟨rfl, rfl, rfl, -⟩ := hxy
    simp only [List.pairwise_cons, List.mem_cons, forall_eq_or_imp] at hy
    exact ⟨a, b, c, hy.1.1, hy.2.1.1, hn, .inl rfl⟩

namespace Clipping

variable {ring : List (Vertex K)} {ears : List (Corner K)}

theorem ascends (h : Clipping ring ears) {N : ℕ}
    (hring : (ring.map Vertex.index).Pairwise (· < ·)) (hN : ∀ v ∈ ring, v.index < N) :
    ∀ c ∈ ears, c.triangle.Ascends N := by
  induction h with
  | pair => simp
  | ear hcut _ _ ih =>
    intro c hc
    rcases List.mem_cons.mp hc with rfl | hc
    · obtain ⟨others, hrot, -⟩ := hcut.around
      exact ascends_of_isRotated hring (by simpa using hN) (hrot.map Vertex.index)
    · exact ih (hring.sublist (hcut.sublist.map _))
        (fun v hv ↦ hN v (hcut.sublist.subset hv)) c hc

/-- **The run invariant.** Whatever ears are taken, their edges span the ring. -/
theorem spans (h : Clipping ring ears) (hnd : (ring.map Vertex.index).Nodup)
    (h3 : 3 ≤ ring.length) :
    Spans (Polyline.cyclicPairs (ring.map Vertex.index))
      (ears.flatMap fun c ↦ c.triangle.edges) := by
  induction h with
  | pair hring => omega
  | @ear ring ear rest ears hcut _ hrest ih =>
    obtain ⟨others, hrot, hrot'⟩ := hcut.around
    have hnd' : (rest.map Vertex.index).Nodup := hnd.sublist (hcut.sublist.map _)
    have hnum := hrot.map Vertex.index
    simp only [List.map_cons] at hnum
    refine Spans.of_mem_iff ?_ fun e ↦ Polyline.mem_cyclicPairs_iff hnum
    by_cases h2 : rest.length = 2
    · -- the last ear
      have hlen := hrot'.perm.length_eq
      have hears := hrest.length_eq
      simp only [List.length_cons] at hlen
      obtain rfl : others = [] := List.length_eq_zero_iff.mp (by omega)
      obtain rfl : ears = [] := List.length_eq_zero_iff.mp (by omega)
      exact Spans.triangle (hnum.nodup_iff.mp hnd)
    · have hstep := (ih hnd' (by have := hcut.length_eq; omega)).of_mem_iff fun e ↦
        (Polyline.mem_cyclicPairs_iff (hrot'.map Vertex.index)).symm
      refine Spans.cons_ear (hnum.nodup_iff.mp hnd) ?_ hstep
      intro e he
      obtain ⟨c, hc, hec⟩ := List.mem_flatMap.mp he
      obtain ⟨hb, ht, ha⟩ := hrest.mem_ring hc
      have htip : ∀ v ∈ rest, v.index ≠ ear.tip.index := fun v hv ↦ hcut.index_ne hnd hv
      simp only [Corner.triangle, Triangle.edges, List.mem_cons, List.not_mem_nil,
        or_false] at hec
      rcases hec with rfl | rfl | rfl
      · exact ⟨htip _ hb, htip _ ht⟩
      · exact ⟨htip _ ht, htip _ ha⟩
      · exact ⟨htip _ ha, htip _ hb⟩

end Clipping

theorem fills_of_ofLoop {loop : List (Point2 K)} {t : Triangulation}
    (h : Triangulation.ofLoop loop = .ok t) : t.Fills loop.length := by
  obtain ⟨hlen, ears, hclip, rfl⟩ := clipping_of_ofLoop h
  have hsorted : ((Vertex.numbered loop).map Vertex.index).Pairwise (· < ·) := by
    rw [Vertex.map_index_numbered]
    exact List.pairwise_lt_range
  have hbelow : ∀ v ∈ Vertex.numbered loop, v.index < loop.length := by
    intro v hv
    have := List.mem_map_of_mem (f := Vertex.index) hv
    rwa [Vertex.map_index_numbered, List.mem_range] at this
  have hspans := hclip.spans (Vertex.nodup_map_index_numbered loop) (by simpa using hlen)
  rw [Vertex.map_index_numbered, cyclicPairs_range] at hspans
  refine ⟨hlen, ?_, ?_, ?_⟩
  · have := hclip.length_eq
    rw [Vertex.length_numbered] at this
    rw [ofEars, List.length_map]
    omega
  · intro s hs
    obtain ⟨c, hc, rfl⟩ := List.mem_map.mp hs
    exact hclip.ascends hsorted hbelow c hc
  · rw [Triangulation.edges, ofEars, List.flatMap_map]
    exact hspans

/-- **Any loop that is triangulated at all is triangulated combinatorially**, whatever its
coordinates: the triangles fill the ring of its positions. Taken in reverse, each triangle lists
its positions backwards, and every directed edge is reversed. -/
theorem triangulation_of_ofLoop {loop : List (Point2 K)} {t : Triangulation}
    (h : Triangulation.ofLoop loop = .ok t) :
    t.Fills loop.length ∧
      (Triangulation.ofLoop loop).map Triangulation.reversed = .ok t.reversed ∧
      t.reversed.triangles = t.triangles.map (fun s ↦ ⟨s.c, s.b, s.a⟩) ∧
      (∀ s ∈ t.triangles, s.reversed.edges.Perm (s.edges.map Prod.swap)) ∧
      ∀ e, t.reversed.edges.count e = t.edges.count e.swap := by
  refine ⟨fills_of_ofLoop h, ?_, rfl, fun s _ ↦ s.edges_reversed_perm, t.count_edges_reversed⟩
  rw [h]
  rfl

/-- A notched loop with a vertex in the middle of a side. -/
def notched : List (Point2 ℚ) := [⟨0, 0⟩, ⟨0, 2⟩, ⟨0, 4⟩, ⟨2, 1⟩, ⟨4, 4⟩, ⟨4, 0⟩]

/-- What becomes of it; the vertex in the middle of the side is clipped as a sliver. -/
def notchedTriangles : Triangulation := ⟨[⟨0, 1, 2⟩, ⟨0, 2, 3⟩, ⟨5, 0, 3⟩, ⟨5, 3, 4⟩], 1⟩

theorem triangulation_of_ofLoop_notched :
    Triangulation.ofLoop notched = .ok notchedTriangles ∧ notchedTriangles.Fills 6 :=
  have h := Outcome.eq_ok_of_toOption (by decide +kernel)
  ⟨h, (triangulation_of_ofLoop h).1⟩

end EarClipping

end SolidModel
