import Mathlib
import SolidModel.Polyhedron.Extrusion
import SolidModel.Proofs.Surface.Tube

/-!
# Prisms with holes are closed

Every loop of a region has a lower and an upper ring and a wall between them, and in the row of
all rings they are neighbours. The two caps are over the whole region: the same triangles, once
over the lower rings and reversed, once over the upper ones. So three ways to number the points
have to agree: the triangles count through the loops, the caps look up a position for every
number, and the walls reckon with the places of the rings.

How the region is cut into triangles is not looked into. All that is assumed is that the triangles
are a patch that spans the loops.
-/

namespace SolidModel

variable {K : Type}

/-! ## Regions in triangles -/

namespace Region

/-- The positions in a row of loops, loop by loop. -/
def rows : (start : ℕ) → List (List (Point2 K)) → List (List ℕ)
  | _, [] => []
  | start, loop :: rest => List.range' start loop.length :: rows (start + loop.length) rest

/-- The edges around the loops of a region, numbered in a row. -/
def border (loops : List (List (Point2 K))) : List (ℕ × ℕ) :=
  (rows 0 loops).flatMap Polyline.cyclicPairs

/-- The triangles are over `n` positions, have three corners each, pass the edges of the border
once and never backwards, and each of their other edges once in both directions. -/
structure IsPatch (n : ℕ) (border : List (ℕ × ℕ)) (triangles : List Triangle) : Prop where
  lt : ∀ t ∈ triangles, ∀ i ∈ t.toList, i < n
  nodup : ∀ t ∈ triangles, t.toList.Nodup
  spans : Spans border (triangles.flatMap Triangle.edges)

private theorem flatten_rows (start : ℕ) (loops : List (List (Point2 K))) :
    (rows start loops).flatten = List.range' start loops.flatten.length := by
  induction loops generalizing start with
  | nil => rfl
  | cons loop rest ih =>
    rw [rows, List.flatten_cons, List.flatten_cons, List.length_append, ih, List.range'_append_1]

private theorem map_length_rows (start : ℕ) (loops : List (List (Point2 K))) :
    (rows start loops).map List.length = loops.map List.length := by
  induction loops generalizing start with
  | nil => rfl
  | cons loop rest ih => rw [rows, List.map_cons, List.map_cons, List.length_range', ih]

namespace IsPatch

variable {n : ℕ} {border : List (ℕ × ℕ)} {triangles : List Triangle}

theorem reversed (h : IsPatch n border triangles) :
    IsPatch n (border.map Prod.swap) (triangles.map Triangle.reversed) where
  lt := by
    simpa only [List.forall_mem_map, Triangle.toList_reversed, List.mem_reverse] using h.lt
  nodup := by
    simpa only [List.forall_mem_map, Triangle.toList_reversed, List.nodup_reverse] using h.nodup
  spans := h.spans.swap.perm (Triangulation.edges_reversed_perm ⟨triangles, 0⟩).symm

theorem of_mem_edges (h : IsPatch n border triangles) {e : ℕ × ℕ}
    (he : e ∈ triangles.flatMap Triangle.edges) : e.1 < n ∧ e.2 < n ∧ e.1 ≠ e.2 := by
  obtain ⟨t, ht, he⟩ := List.mem_flatMap.mp he
  have hlt := h.lt t ht
  have hnd := h.nodup t ht
  simp only [Triangle.toList, List.nodup_cons, List.mem_cons, List.not_mem_nil, or_false, not_or,
    List.nodup_nil, and_true, not_false_eq_true, forall_eq_or_imp, forall_eq] at hlt hnd
  simp only [Triangle.edges, List.mem_cons, List.not_mem_nil, or_false] at he
  obtain ⟨ha, hb, hc⟩ := hlt
  obtain ⟨⟨hab, hac⟩, hbc⟩ := hnd
  rcases he with rfl | rfl | rfl
  · exact ⟨ha, hb, hab⟩
  · exact ⟨hb, hc, hbc⟩
  · exact ⟨hc, ha, Ne.symm hac⟩

end IsPatch

end Region

namespace Polyhedron

/-! ## Rings in their places -/

namespace RingPlace

variable {loops : List (List (Point2 K))} {start : ℕ}

theorem map_count_inRow (start : ℕ) (loops : List (List (Point2 K))) :
    (inRow start loops).map count = loops.map List.length := by
  induction loops generalizing start with
  | nil => rfl
  | cons loop rest ih => rw [inRow, List.map_cons, List.map_cons, ih]

theorem of_mem_inRow {r : RingPlace} (h : r ∈ inRow start loops) :
    start ≤ r.start ∧ r.start + 2 * r.count ≤ start + 2 * loops.flatten.length := by
  induction loops generalizing start with
  | nil => exact absurd h List.not_mem_nil
  | cons loop rest ih =>
    rw [List.flatten_cons, List.length_append]
    rcases List.mem_cons.mp h with rfl | h
    · exact ⟨le_rfl, by simp only; omega⟩
    · have := ih h
      omega

/-- The rings of a loop are all in front of those of a later loop. -/
theorem pairwise_inRow (start : ℕ) (loops : List (List (Point2 K))) :
    (inRow start loops).Pairwise fun r r' ↦ r.start + 2 * r.count ≤ r'.start := by
  induction loops generalizing start with
  | nil => exact List.Pairwise.nil
  | cons loop rest ih =>
    exact List.pairwise_cons.mpr ⟨fun r hr ↦ (of_mem_inRow hr).1, ih _⟩

theorem eq_or_apart {r r' : RingPlace} (hr : r ∈ inRow start loops) (hr' : r' ∈ inRow start loops) :
    r = r' ∨ r.start + 2 * r.count ≤ r'.start ∨ r'.start + 2 * r'.count ≤ r.start := by
  induction loops generalizing start with
  | nil => exact absurd hr List.not_mem_nil
  | cons loop rest ih =>
    rcases List.mem_cons.mp hr with rfl | hr <;> rcases List.mem_cons.mp hr' with rfl | hr'
    · exact .inl rfl
    · exact .inr (.inl (of_mem_inRow hr').1)
    · exact .inr (.inr (of_mem_inRow hr).1)
    · exact ih hr hr'

/-- Where the upper ring starts. -/
def middle (r : RingPlace) : ℕ := r.start + r.count

/-- The ring that starts at `base` does not leave the two rings of its loop. -/
def IsBase (base : RingPlace → ℕ) : Prop := ∀ r : RingPlace, r.start ≤ base r ∧ base r ≤ r.middle

theorem isBase_start : IsBase RingPlace.start := fun r ↦ ⟨le_rfl, Nat.le_add_right r.start r.count⟩

theorem isBase_middle : IsBase middle := fun r ↦ ⟨Nat.le_add_right r.start r.count, le_rfl⟩

end RingPlace

/-- The edges of one ring of every loop, of the one that starts at `base`. -/
def ringRowEdges (base : RingPlace → ℕ) (places : List RingPlace) : List (ℤ × ℤ) :=
  places.flatMap fun r ↦ ringEdges (base r) r.count

/-- The position belongs to one of these rings. -/
def OnRingRow (base : RingPlace → ℕ) (places : List RingPlace) (v : ℤ) : Prop :=
  ∃ r ∈ places, OnRing (base r) r.count v

/-- The positions of these rings. -/
def ringRow (base : RingPlace → ℕ) (places : List RingPlace) : List ℕ :=
  places.flatMap fun r ↦ List.range' (base r) r.count

/-- The position in such a row that a number stands for. -/
def place (positions : List ℕ) (i : ℕ) : ℤ := (positions.getD i 0 : ℕ)

section Rows

variable {loops : List (List (Point2 K))} {base : RingPlace → ℕ}

private theorem ringEdges_eq_cyclicPairs (start n : ℕ) :
    ringEdges start n = Polyline.cyclicPairs ((List.range' start n).map Nat.cast) := by
  rw [← map_ring_eq, ← EarClipping.cyclicPairs_range, ← Polyline.cyclicPairs_map,
    List.range'_eq_map_range, List.map_map]
  simp only [Function.comp_def, Nat.add_comm]

private theorem length_ringRow (base : RingPlace → ℕ) (start : ℕ) (loops : List (List (Point2 K))) :
    (ringRow base (RingPlace.inRow start loops)).length = loops.flatten.length := by
  rw [ringRow, List.length_flatMap, List.length_flatten, ← RingPlace.map_count_inRow start]
  simp only [List.length_range']

private theorem nodup_ringRow {start : ℕ} (hbase : RingPlace.IsBase base) :
    (ringRow base (RingPlace.inRow start loops)).Nodup := by
  refine List.nodup_flatMap.mpr ⟨fun r _ ↦ List.nodup_range',
    (RingPlace.pairwise_inRow start loops).imp fun {r r'} h ↦ ?_⟩
  have hr := hbase r
  have hr' := hbase r'
  rw [Function.onFun, List.disjoint_left]
  intro v hv hv'
  rw [List.mem_range'_1] at hv hv'
  rw [RingPlace.middle] at hr hr'
  omega

private theorem map_place_range (positions : List ℕ) :
    (List.range positions.length).map (place positions) = positions.map Nat.cast := by
  refine List.ext_getElem (by simp) fun i h _ ↦ ?_
  rw [List.length_map, List.length_range] at h
  simp [place, h]

/-- The rows of the loops, looked up in a row of rings, are the rings. -/
private theorem map_rows_place (base : RingPlace → ℕ) (loops : List (List (Point2 K))) :
    (Region.rows 0 loops).map (List.map (place (ringRow base (RingPlace.inRow 0 loops))))
      = (RingPlace.inRow 0 loops).map fun r ↦ (List.range' (base r) r.count).map Nat.cast := by
  -- the same positions in a row, cut into pieces of the same lengths
  refine List.eq_iff_flatten_eq.mpr ⟨?_, ?_⟩
  · rw [← List.map_flatten, Region.flatten_rows, ← List.range_eq_range',
      ← length_ringRow base 0 loops, map_place_range, ← List.flatMap_def, ringRow, List.map_flatMap]
  · simp only [List.map_map, Function.comp_def, List.length_map, List.length_range']
    exact (Region.map_length_rows 0 loops).trans (RingPlace.map_count_inRow 0 loops).symm

private theorem map_border_place (base : RingPlace → ℕ) (loops : List (List (Point2 K))) :
    (Region.border loops).map (Prod.map (place (ringRow base (RingPlace.inRow 0 loops)))
        (place (ringRow base (RingPlace.inRow 0 loops))))
      = ringRowEdges base (RingPlace.inRow 0 loops) := by
  rw [Region.border, List.map_flatMap]
  simp only [← Polyline.cyclicPairs_map]
  rw [← List.flatMap_map, map_rows_place, List.flatMap_map, ringRowEdges]
  simp only [ringEdges_eq_cyclicPairs]

private theorem injOn_place {positions : List ℕ} (h : positions.Nodup) :
    Set.InjOn (place positions) {i | i < positions.length} := by
  intro i (hi : i < positions.length) j (hj : j < positions.length) hij
  rw [place, place, Nat.cast_inj, List.getD_eq_getElem _ _ hi, List.getD_eq_getElem _ _ hj] at hij
  exact (h.getElem_inj_iff).mp hij

private theorem onRingRow_place {places : List RingPlace} {i : ℕ}
    (hi : i < (ringRow base places).length) :
    OnRingRow base places (place (ringRow base places) i) := by
  have hmem : (ringRow base places).getD i 0 ∈ ringRow base places := by
    rw [List.getD_eq_getElem _ _ hi]
    exact List.getElem_mem hi
  obtain ⟨r, hr, hv⟩ := List.mem_flatMap.mp hmem
  rw [List.mem_range'_1] at hv
  refine ⟨r, hr, ?_⟩
  simp only [OnRing, place]
  omega

theorem OnRingRow.not_middle {start : ℕ} {v : ℤ}
    (h : OnRingRow RingPlace.start (RingPlace.inRow start loops) v) :
    ¬OnRingRow RingPlace.middle (RingPlace.inRow start loops) v := by
  rintro ⟨r', hr', hv'⟩
  obtain ⟨r, hr, hv⟩ := h
  simp only [OnRing, RingPlace.middle, Nat.cast_add] at hv hv'
  rcases RingPlace.eq_or_apart hr hr' with rfl | h | h <;> omega

theorem OnRingRow.bounds {start : ℕ} {v : ℤ}
    (hbase : RingPlace.IsBase base)
    (h : OnRingRow base (RingPlace.inRow start loops) v) :
    (start : ℤ) ≤ v ∧ v < start + 2 * loops.flatten.length := by
  obtain ⟨r, hr, hv⟩ := h
  have hr := RingPlace.of_mem_inRow hr
  have hbase := hbase r
  simp only [OnRing, RingPlace.middle] at hv hbase
  omega

end Rows

/-! ## Caps over a region -/

theorem ringFace_toArray (positions : List ℕ) (t : Triangle) :
    ringFace positions.toArray t = t.toList.map (place positions) := by
  simp [ringFace, place, Triangle.toList]

private theorem edges_ringFaces (positions : List ℕ) (triangles : List Triangle) :
    (triangles.map (ringFace positions.toArray)).flatMap Face.edges
      = (triangles.flatMap Triangle.edges).map (Prod.map (place positions) (place positions)) := by
  rw [List.flatMap_map, List.map_flatMap]
  simp only [ringFace_toArray]
  rfl

/-- The triangles of a region over one ring of every loop. -/
def regionCap (base : RingPlace → ℕ) (loops : List (List (Point2 K))) (triangles : List Triangle) :
    List Face :=
  triangles.map (ringFace (ringRow base (RingPlace.inRow 0 loops)).toArray)

/-- A patch looked up in one ring of every loop is a cap over these rings: different numbers stand
for different positions, so no two of its edges become one. -/
theorem isCap_regionCap {loops : List (List (Point2 K))} {base : RingPlace → ℕ}
    {border : List (ℕ × ℕ)} {triangles : List Triangle}
    (hbase : RingPlace.IsBase base)
    (h : Region.IsPatch loops.flatten.length border triangles) :
    IsCap (OnRingRow base (RingPlace.inRow 0 loops)) triangles.length
      (border.map (Prod.map (place (ringRow base (RingPlace.inRow 0 loops)))
        (place (ringRow base (RingPlace.inRow 0 loops)))))
      (regionCap base loops triangles) := by
  have hlen := length_ringRow base 0 loops
  have hnd : (ringRow base (RingPlace.inRow 0 loops)).Nodup := nodup_ringRow hbase
  have hinj := injOn_place hnd
  have hends : ∀ e ∈ triangles.flatMap Triangle.edges, _ := fun e he ↦ h.of_mem_edges he
  rw [← hlen] at hends
  refine ⟨?_, ?_, ?_, List.length_map _⟩
  · rw [regionCap, edges_ringFaces]
    exact h.spans.map_of_injOn hinj fun e he ↦ ⟨(hends e he).1, (hends e he).2.1⟩
  · rw [regionCap, edges_ringFaces, List.forall_mem_map]
    intro e he heq
    exact (hends e he).2.2 (hinj (hends e he).1 (hends e he).2.1 heq)
  · rw [regionCap, List.forall_mem_map]
    intro t ht
    rw [ringFace_toArray, List.length_map, List.forall_mem_map]
    refine ⟨rfl, fun i hi ↦ onRingRow_place ?_⟩
    rw [hlen]
    exact h.lt t ht i hi

/-! ## The walls of all loops -/

section Walls

variable {loops : List (List (Point2 K))} {start : ℕ} {wall : RingPlace → List Face}

/-- A wall from the lower ring of a loop to its upper ring. -/
def IsLoopWall (wall : RingPlace → List Face) (r : RingPlace) : Prop :=
  IsWall r.count r.start r.middle (ringEdges r.start r.count) (ringEdges r.middle r.count) (wall r)

private theorem exists_isLoopWall_of_mem (h : ∀ r ∈ RingPlace.inRow start loops, IsLoopWall wall r)
    {e : ℤ × ℤ} (he : e ∈ ((RingPlace.inRow start loops).flatMap wall).flatMap Face.edges) :
    ∃ r ∈ RingPlace.inRow start loops, IsLoopWall wall r ∧ e ∈ (wall r).flatMap Face.edges := by
  rw [List.flatMap_assoc, List.mem_flatMap] at he
  obtain ⟨r, hr, he⟩ := he
  exact ⟨r, hr, h r hr, he⟩

theorem spans_loopWalls (h : ∀ r ∈ RingPlace.inRow start loops, IsLoopWall wall r) :
    Spans (ringRowEdges RingPlace.start (RingPlace.inRow start loops) ++
        (ringRowEdges RingPlace.middle (RingPlace.inRow start loops)).map Prod.swap)
      (((RingPlace.inRow start loops).flatMap wall).flatMap Face.edges) := by
  have hspans : ∀ r ∈ RingPlace.inRow start loops,
      Spans (ringEdges r.start r.count ++ (ringEdges r.middle r.count).map Prod.swap)
        ((wall r).flatMap Face.edges) := fun r hr ↦ (h r hr).joins.spans
  -- the walls of a loop and those of a later one have no position in common
  have hrow := Spans.flatMap_of_pairwise hspans <|
    (RingPlace.pairwise_inRow start loops).imp_of_mem fun {r r'} hr hr' hapart ↦ by
      intro e he
      have hplaces := mem_of_mem_edges (h r' hr').places he
      refine ⟨fun hmem ↦ ?_, fun hmem ↦ ?_⟩ <;>
      · have hplaces' := mem_of_mem_edges (h r hr).places hmem
        simp only [OnRing, RingPlace.middle, Prod.fst_swap, Prod.snd_swap] at hplaces hplaces'
        omega
  rw [List.flatMap_assoc]
  refine hrow.of_mem_iff fun e ↦ List.Perm.mem_iff ?_
  rw [ringRowEdges, ringRowEdges, List.map_flatMap]
  exact List.flatMap_append_perm ..

private theorem onRingRow_of_mem_ringRowEdges {base : RingPlace → ℕ} {places : List RingPlace}
    {e : ℤ × ℤ} (he : e ∈ ringRowEdges base places) :
    OnRingRow base places e.1 ∧ OnRingRow base places e.2 := by
  obtain ⟨r, hr, he⟩ := List.mem_flatMap.mp he
  have hends := within_iff.mp (within_of_mem_ringEdges he)
  exact ⟨⟨r, hr, hends.1⟩, r, hr, hends.2⟩

/-- **The walls of all loops** join all lower rings to all upper ones. Their edges from ring to
ring stay within a loop, so an edge between lower rings is within one of them. -/
theorem joins_loopWalls (h : ∀ r ∈ RingPlace.inRow start loops, IsLoopWall wall r) :
    Joins (OnRingRow RingPlace.start (RingPlace.inRow start loops))
      (OnRingRow RingPlace.middle (RingPlace.inRow start loops))
      (ringRowEdges RingPlace.start (RingPlace.inRow start loops))
      (ringRowEdges RingPlace.middle (RingPlace.inRow start loops))
      (((RingPlace.inRow start loops).flatMap wall).flatMap Face.edges) where
  spans := spans_loopWalls h
  of_mem_below _ := onRingRow_of_mem_ringRowEdges
  of_mem_above _ := onRingRow_of_mem_ringRowEdges
  mem_below e he hends := by
    obtain ⟨r, hr, hwall, he⟩ := exists_isLoopWall_of_mem h he
    have hplaces := mem_of_mem_edges hwall.places he
    have h1 := hplaces.1.resolve_right fun hv ↦ hends.1.not_middle ⟨r, hr, hv⟩
    have h2 := hplaces.2.resolve_right fun hv ↦ hends.2.not_middle ⟨r, hr, hv⟩
    exact List.mem_flatMap.mpr ⟨r, hr, hwall.joins.mem_below e he ⟨h1, h2⟩⟩
  mem_above e he hends := by
    obtain ⟨r, hr, hwall, he⟩ := exists_isLoopWall_of_mem h he
    have hplaces := mem_of_mem_edges hwall.places he
    have h1 := hplaces.1.resolve_left fun hv ↦ OnRingRow.not_middle ⟨r, hr, hv⟩ hends.1
    have h2 := hplaces.2.resolve_left fun hv ↦ OnRingRow.not_middle ⟨r, hr, hv⟩ hends.2
    exact List.mem_flatMap.mpr ⟨r, hr, hwall.joins.mem_above e he ⟨h1, h2⟩⟩
  ne e he := by
    obtain ⟨r, -, hwall, he⟩ := exists_isLoopWall_of_mem h he
    exact hwall.joins.ne e he

end Walls

/-! ## Closed prisms -/

section Prisms

variable {loops : List (List (Point2 K))} {wall : RingPlace → List Face} {p : Polyhedron K}
  {bottom top : List Face} {c d : ℕ}

private theorem facesFit_loopWalls (h : ∀ r ∈ RingPlace.inRow 0 loops, IsLoopWall wall r) :
    FacesFit (2 * loops.flatten.length) ((RingPlace.inRow 0 loops).flatMap wall) := by
  intro f hf
  obtain ⟨r, hr, hf⟩ := List.mem_flatMap.mp hf
  have hbounds := RingPlace.of_mem_inRow hr
  refine (h r hr).facesFit ?_ ?_ f hf
  · omega
  · rw [RingPlace.middle]
    omega

/-- A cap over the lower rings of a region, one over the upper rings, and walls between them. -/
theorem closed_of_loopWalls (h : ∀ r ∈ RingPlace.inRow 0 loops, IsLoopWall wall r)
    (hloops : loops ≠ [])
    (hbottom : IsCap (OnRingRow RingPlace.start (RingPlace.inRow 0 loops)) c
      ((ringRowEdges RingPlace.start (RingPlace.inRow 0 loops)).map Prod.swap) bottom)
    (htop : IsCap (OnRingRow RingPlace.middle (RingPlace.inRow 0 loops)) d
      (ringRowEdges RingPlace.middle (RingPlace.inRow 0 loops)) top)
    (hpoints : p.points.length = 2 * loops.flatten.length)
    (hfaces : p.faces = bottom ++ top ++ (RingPlace.inRow 0 loops).flatMap wall) : p.Closed := by
  have hbounds : ∀ {base : RingPlace → ℕ}, RingPlace.IsBase base →
      ∀ v, OnRingRow base (RingPlace.inRow 0 loops) v → 0 ≤ v ∧ v < p.points.length := by
    intro base hbase v hv
    have hv := hv.bounds hbase
    omega
  refine closed_of_joins (joins_loopWalls h) (fun _ ↦ OnRingRow.not_middle) hbottom htop
    (hpoints ▸ facesFit_loopWalls h) (hbounds RingPlace.isBase_start)
    (hbounds RingPlace.isBase_middle) ?_ (.of_eq hfaces)
  obtain ⟨loop, rest, rfl⟩ := List.exists_cons_of_ne_nil hloops
  have hne := (h _ List.mem_cons_self).edges_ne_nil
  rw [RingPlace.inRow, List.flatMap_cons, List.flatMap_append]
  exact List.append_ne_nil_of_left_ne_nil hne _

/-- The quads between the two rings of a loop. -/
def loopWall (r : RingPlace) : List Face := walls r.start r.middle r.count

theorem isQuadWall_loopWall {r : RingPlace} (hcount : 3 ≤ r.count) :
    IsQuadWall r.count r.start r.middle (ringEdges r.start r.count) (ringEdges r.middle r.count)
      (loopWall r) :=
  isQuadWall_walls hcount (.inl le_rfl)

private theorem three_le_count (h : ∀ loop ∈ loops, 3 ≤ loop.length) {start : ℕ} {r : RingPlace}
    (hr : r ∈ RingPlace.inRow start loops) : 3 ≤ r.count := by
  have hmem : r.count ∈ loops.map List.length := by
    rw [← RingPlace.map_count_inRow start]
    exact List.mem_map_of_mem hr
  obtain ⟨loop, hloop, hlen⟩ := List.mem_map.mp hmem
  rw [← hlen]
  exact h loop hloop

private theorem length_loopWalls (start : ℕ) (loops : List (List (Point2 K))) :
    ((RingPlace.inRow start loops).flatMap loopWall).length = loops.flatten.length := by
  rw [List.length_flatMap, List.length_flatten, ← RingPlace.map_count_inRow start]
  simp only [loopWall, walls, List.length_map, List.length_range]

/-- **Prisms over regions.** A region is cut into triangles in whatever way; the prism over it has
them twice, and a quad for every edge around its loops. -/
theorem closedWith_of_isPatch {triangles : List Triangle} (hloops : loops ≠ [])
    (hthree : ∀ loop ∈ loops, 3 ≤ loop.length)
    (h : Region.IsPatch loops.flatten.length (Region.border loops) triangles)
    (hpoints : p.points.length = 2 * loops.flatten.length)
    (hfaces : p.faces = regionCap RingPlace.start loops (triangles.map Triangle.reversed) ++
      regionCap RingPlace.middle loops triangles ++ (RingPlace.inRow 0 loops).flatMap loopWall) :
    p.ClosedWith (2 * loops.flatten.length) loops.flatten.length (2 * triangles.length) := by
  have htop := isCap_regionCap RingPlace.isBase_middle h
  have hbottom := isCap_regionCap RingPlace.isBase_start h.reversed
  -- the border may as well be reversed after it has been looked up
  have hswap : ∀ f : ℕ → ℤ, Prod.map f f ∘ Prod.swap = Prod.swap ∘ Prod.map f f := fun _ ↦ rfl
  rw [map_border_place] at htop
  rw [List.map_map, hswap, ← List.map_map, map_border_place, List.length_map] at hbottom
  have hwall : ∀ r ∈ RingPlace.inRow 0 loops, IsQuadWall .. :=
    fun r hr ↦ isQuadWall_loopWall (three_le_count hthree hr)
  have hsplit : p.split.faces = _ := congrArg (List.flatMap Face.triangles) hfaces
  rw [List.flatMap_append, List.flatMap_append, hbottom.flatMap_triangles, htop.flatMap_triangles,
    List.flatMap_assoc] at hsplit
  have hclosed : p.Closed ∧ p.split.Closed :=
    ⟨closed_of_loopWalls (fun r hr ↦ (hwall r hr).wall) hloops hbottom htop hpoints hfaces,
      closed_of_loopWalls (fun r hr ↦ (hwall r hr).cut) hloops hbottom htop hpoints hsplit⟩
  have hquads : ∀ f ∈ (RingPlace.inRow 0 loops).flatMap loopWall, f.length = 4 := by
    intro f hf
    obtain ⟨r, hr, hf⟩ := List.mem_flatMap.mp hf
    exact (hwall r hr).quads f hf
  have hwith := closedWith_of_caps hbottom htop hquads (.of_eq hfaces) hclosed
  rwa [hpoints, length_loopWalls, ← Nat.two_mul] at hwith

end Prisms

/-! ## Extrusion around holes -/

variable [Scalar K]

private theorem length_of_holeLoop {hole loop : List (Point2 K)} (h : holeLoop hole = .ok loop) :
    loop.length = hole.length := by
  rw [holeLoop] at h
  split at h
  · cases h
  split at h
  · rw [← Except.ok.inj h, List.length_reverse]
  · rw [← Except.ok.inj h]

private theorem three_le_length_of_triangulate {cut : RegionCutter K} {outline : List (Point2 K)}
    {holes : List (List (Point2 K))} {triangles : List Triangle}
    (h : Region.triangulate cut outline holes = .ok triangles) :
    ∀ loop ∈ outline :: holes, 3 ≤ loop.length := by
  obtain ⟨⟨⟩, hcheck, -⟩ := Outcome.bind_eq_ok_iff.mp h
  intro loop hloop
  have hloop := Outcome.forM_eq_ok_iff.mp hcheck loop hloop
  split at hloop
  · cases hloop
  · omega

private theorem length_holedPoints (loops : List (List (Point2 K))) (height : K) :
    (loops.flatMap fun loop ↦
      Polyline.atHeight loop 0.0 ++ Polyline.atHeight loop height).length
        = 2 * loops.flatten.length := by
  induction loops with
  | nil => rfl
  | cons loop rest ih =>
    rw [List.flatMap_cons, List.length_append, ih, List.flatten_cons]
    simp only [Polyline.atHeight, List.length_append, List.length_map]
    omega

/-- **Prisms with holes are closed**, if their region is cut into triangles that fit together.
Whatever the loops and however many, there are two points for each of theirs, a quad for each and
every triangle twice; the surface passes all checks, and so it does with its quads cut. -/
theorem closedWith_of_linearExtrudeBy {cut : RegionCutter K} {outline : List (Point2 K)}
    {height : K} {holes : List (List (Point2 K))} {made : Noted (Polyhedron K)}
    (hholes : holes ≠ []) (h : linearExtrudeBy cut outline height holes = .ok made) :
    ∃ loops triangles, holes.mapM holeLoop = .ok loops ∧
      Region.triangulate cut outline loops = .ok triangles ∧
      (Region.IsPatch (outline :: loops).flatten.length (Region.border (outline :: loops))
          triangles →
        made.value.ClosedWith (2 * (outline :: holes).flatten.length)
          (outline :: holes).flatten.length (2 * triangles.length)) := by
  obtain ⟨hole, rest, rfl⟩ := List.exists_cons_of_ne_nil hholes
  simp only [linearExtrudeBy, holedPrism, Outcome.guard_eq_ok_iff, Outcome.bind_eq_ok_iff,
    Outcome.pure_eq_ok_iff] at h
  obtain ⟨-, -, p, ⟨loops, hloops, triangles, htriangles, rfl⟩, rfl⟩ := h
  have hlengths : loops.map List.length = (hole :: rest).map List.length :=
    Outcome.map_eq_of_mapM_eq_ok hloops fun _ _ ↦ length_of_holeLoop
  have hcount : (outline :: hole :: rest).flatten.length = (outline :: loops).flatten.length := by
    rw [List.length_flatten, List.length_flatten]
    exact congrArg (fun sizes ↦ (outline.length :: sizes).sum) hlengths.symm
  rw [hcount]
  refine ⟨loops, triangles, hloops, htriangles, fun hpatch ↦ ?_⟩
  refine closedWith_of_isPatch (List.cons_ne_nil _ _)
    (three_le_length_of_triangulate htriangles) hpatch (length_holedPoints _ _) ?_
  rw [regionCap, List.map_map]
  rfl

/-- A triangular plate. -/
def plate : List (Point2 ℚ) := [⟨0, 0⟩, ⟨0, 8⟩, ⟨8, 0⟩]

/-- A hole in it that runs clockwise. -/
def slot : List (Point2 ℚ) := [⟨1, 3⟩, ⟨2, 5⟩, ⟨4, 1⟩]

/-- The hole run counter-clockwise. -/
def slotReversed : List (Point2 ℚ) := [⟨4, 1⟩, ⟨2, 5⟩, ⟨1, 3⟩]

/-- What is left of the plate. Every corner of the hole sees two corners of the plate and has to
be joined to both, so this is the only way to cut it. -/
def plateTriangles : List Triangle :=
  [⟨0, 1, 5⟩, ⟨0, 5, 3⟩, ⟨2, 0, 3⟩, ⟨2, 3, 4⟩, ⟨4, 5, 1⟩, ⟨2, 4, 1⟩]

private theorem isPatch_plateTriangles :
    Region.IsPatch 6 (Region.border [plate, slotReversed]) plateTriangles :=
  ⟨by decide, by decide, by decide, by decide⟩

/-- The plate with its hole cut out. -/
theorem closedWith_of_linearExtrudeBy_plate :
    ∃ made, linearExtrude plate 1 [slot] = .ok made ∧ made.value.ClosedWith 12 6 12 := by
  obtain ⟨made, hmade⟩ := Outcome.exists_eq_ok_of_isSome
    (e := linearExtrude plate 1 [slot]) (by decide +kernel)
  have hloops : [slot].mapM holeLoop = .ok [slotReversed] :=
    Outcome.eq_ok_of_toOption (by decide +kernel)
  have htriangles : Region.triangulate Region.bridgeCutter plate [slotReversed]
      = .ok plateTriangles := Outcome.eq_ok_of_toOption (by decide +kernel)
  obtain ⟨loops, triangles, hloops', htriangles', hclosed⟩ :=
    closedWith_of_linearExtrudeBy (List.cons_ne_nil slot []) hmade
  obtain rfl : [slotReversed] = loops := Except.ok.inj (hloops.symm.trans hloops')
  obtain rfl : plateTriangles = triangles := Except.ok.inj (htriangles.symm.trans htriangles')
  exact ⟨made, hmade, hclosed isPatch_plateTriangles⟩

end Polyhedron

end SolidModel
