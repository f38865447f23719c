import Mathlib
import SolidModel.Proofs.EarClipping.Diagonals
import SolidModel.Proofs.Surface.Checks

/-!
# Caps and walls as patches

A solid is put together from caps, which are triangulated rings, and walls of quads between two
rings. Each is a patch that spans the rings it ends at, and rings are numbered one behind the
other, so two patches meet only along a ring that both end at.

A cap spans its ring in the direction of the ring, a reversed cap against it. A wall runs along
its lower ring and against its upper one.
-/

namespace SolidModel

namespace Polyhedron

/-! ## Rings -/

/-- The edges of the ring of `n` positions from `start` on. -/
def ringEdges (start n : ℕ) : List (ℤ × ℤ) :=
  (List.range n).map fun i ↦ (((start + i : ℕ) : ℤ), ((start + (i + 1) % n : ℕ) : ℤ))

theorem succ_mod_eq {n i : ℕ} (hi : i < n) :
    (i + 1 = n ∧ (i + 1) % n = 0) ∨ (i + 1 < n ∧ (i + 1) % n = i + 1) := by
  rcases Nat.lt_or_ge (i + 1) n with h | h
  · exact .inr ⟨h, Nat.mod_eq_of_lt h⟩
  · obtain rfl : i + 1 = n := by omega
    exact .inl ⟨rfl, Nat.mod_self _⟩

theorem mem_ringEdges_iff {start n : ℕ} {e : ℤ × ℤ} :
    e ∈ ringEdges start n ↔
      ∃ i < n, e = (((start + i : ℕ) : ℤ), ((start + (i + 1) % n : ℕ) : ℤ)) := by
  simp only [ringEdges, List.mem_map, List.mem_range, eq_comm (a := e)]

/-- Both ends of the edge lie among the `n` positions from `start` on. -/
def Within (start n : ℕ) (e : ℤ × ℤ) : Prop :=
  (start : ℤ) ≤ e.1 ∧ e.1 < start + n ∧ (start : ℤ) ≤ e.2 ∧ e.2 < start + n

/-- The position is one of the `n` from `start` on. -/
def OnRing (start n : ℕ) (v : ℤ) : Prop := (start : ℤ) ≤ v ∧ v < start + n

theorem within_iff {start n : ℕ} {e : ℤ × ℤ} :
    Within start n e ↔ OnRing start n e.1 ∧ OnRing start n e.2 := by
  simp only [Within, OnRing, and_assoc]

theorem within_of_mem_ringEdges {start n : ℕ} {e : ℤ × ℤ} (h : e ∈ ringEdges start n) :
    Within start n e := by
  obtain ⟨i, hi, rfl⟩ := mem_ringEdges_iff.mp h
  have hj := Nat.mod_lt (i + 1) (Nat.zero_lt_of_lt hi)
  simp only [Within]
  omega

/-! ## Caps -/

section Caps

variable {t : Triangulation} {n : ℕ}

theorem edges_cap (start : ℕ) (t : Triangulation) :
    (cap start t).flatMap Face.edges
      = t.edges.map (Prod.map (fun i ↦ ((i + start : ℕ) : ℤ)) fun i ↦ ((i + start : ℕ) : ℤ)) := by
  rw [cap, Triangulation.edges, List.flatMap_map, List.map_flatMap]
  rfl

private theorem add_start_injective (start : ℕ) :
    Function.Injective fun i : ℕ ↦ ((i + start : ℕ) : ℤ) := by
  intro i j h
  simp only at h
  omega

theorem map_ring_eq (start n : ℕ) :
    ((List.range n).map fun i ↦ (i, (i + 1) % n)).map
        (Prod.map (fun i ↦ ((i + start : ℕ) : ℤ)) fun i ↦ ((i + start : ℕ) : ℤ))
      = ringEdges start n := by
  rw [ringEdges, List.map_map]
  refine List.map_congr_left fun i _ ↦ ?_
  simp only [Function.comp_apply, Prod.map_apply, Nat.add_comm start]

theorem spans_cap (start : ℕ) (h : t.Fills n) :
    Spans (ringEdges start n) ((cap start t).flatMap Face.edges) := by
  rw [edges_cap, ← map_ring_eq]
  exact h.spans.map (add_start_injective start)

/-- A cap seen from behind spans its ring backwards. -/
theorem spans_cap_reversed (start : ℕ) (h : t.Fills n) :
    Spans ((ringEdges start n).map Prod.swap) ((cap start t.reversed).flatMap Face.edges) := by
  have hperm := t.edges_reversed_perm.symm.map
    (Prod.map (fun i ↦ ((i + start : ℕ) : ℤ)) fun i ↦ ((i + start : ℕ) : ℤ))
  have hspans := h.spans.swap.map (add_start_injective start)
  rw [edges_cap, ← map_ring_eq, List.map_map]
  rw [List.map_map] at hspans
  exact hspans.perm hperm

theorem within_of_mem_cap {start : ℕ} (h : t.Fills n) {e : ℤ × ℤ}
    (he : e ∈ (cap start t).flatMap Face.edges) : Within start n e ∧ e.1 ≠ e.2 := by
  rw [edges_cap] at he
  obtain ⟨d, hd, rfl⟩ := List.mem_map.mp he
  obtain ⟨h1, h2, hne⟩ := h.lt_of_mem_edges hd
  simp only [Within, Prod.map_fst, Prod.map_snd]
  omega

theorem within_of_mem_cap_reversed {start : ℕ} (h : t.Fills n) {e : ℤ × ℤ}
    (he : e ∈ (cap start t.reversed).flatMap Face.edges) : Within start n e ∧ e.1 ≠ e.2 := by
  rw [edges_cap] at he
  obtain ⟨d, hd, rfl⟩ := List.mem_map.mp he
  rw [t.edges_reversed_perm.mem_iff, List.mem_map] at hd
  obtain ⟨c, hc, rfl⟩ := hd
  obtain ⟨h1, h2, hne⟩ := h.lt_of_mem_edges hc
  simp only [Within, Prod.map_fst, Prod.map_snd, Prod.fst_swap, Prod.snd_swap]
  omega

theorem onRing_of_mem_cap {start : ℕ} (h : t.Fills n) {f : Face} (hf : f ∈ cap start t) :
    f.length = 3 ∧ ∀ v ∈ f, OnRing start n v := by
  obtain ⟨s, hs, rfl⟩ := List.mem_map.mp hf
  refine ⟨rfl, ?_⟩
  obtain ⟨i, j, k, hij, hjk, hk, rfl | rfl | rfl⟩ := h.ascends s hs <;>
  · simp only [Face.ofTriangle, OnRing, List.mem_cons, List.not_mem_nil, or_false,
      forall_eq_or_imp, forall_eq]
    omega

theorem cap_reversed (start : ℕ) (t : Triangulation) :
    cap start t.reversed = (cap start t).map List.reverse := by
  rw [cap, cap, Triangulation.reversed, List.map_map, List.map_map]
  rfl

theorem onRing_of_mem_cap_reversed {start : ℕ} (h : t.Fills n) {f : Face}
    (hf : f ∈ cap start t.reversed) : f.length = 3 ∧ ∀ v ∈ f, OnRing start n v := by
  rw [cap_reversed] at hf
  obtain ⟨g, hg, rfl⟩ := List.mem_map.mp hf
  obtain ⟨hlen, hplaces⟩ := onRing_of_mem_cap h hg
  exact ⟨by rwa [List.length_reverse], fun v hv ↦ hplaces v (List.mem_reverse.mp hv)⟩

end Caps

/-! ## Walls -/

theorem mem_edges_walls_iff {lower upper n : ℕ} {e : ℤ × ℤ} :
    e ∈ (walls lower upper n).flatMap Face.edges ↔
      ∃ i < n, e = (((lower + i : ℕ) : ℤ), ((lower + (i + 1) % n : ℕ) : ℤ)) ∨
        e = (((lower + (i + 1) % n : ℕ) : ℤ), ((upper + (i + 1) % n : ℕ) : ℤ)) ∨
        e = (((upper + (i + 1) % n : ℕ) : ℤ), ((upper + i : ℕ) : ℤ)) ∨
        e = (((upper + i : ℕ) : ℤ), ((lower + i : ℕ) : ℤ)) := by
  rw [walls, List.flatMap_map]
  simp only [List.mem_flatMap, List.mem_range, Face.edges, Polyline.cyclicPairs_cons,
    List.cons_append, List.nil_append, Polyline.links_cons_cons, Polyline.links_singleton,
    List.mem_cons, List.not_mem_nil, or_false]

theorem mem_diagonals_walls_iff {lower upper n : ℕ} {e : ℤ × ℤ} :
    e ∈ (walls lower upper n).flatMap Face.diagonals ↔
      ∃ i < n, e = (((lower + i : ℕ) : ℤ), ((upper + (i + 1) % n : ℕ) : ℤ)) ∨
        e = (((upper + (i + 1) % n : ℕ) : ℤ), ((lower + i : ℕ) : ℤ)) := by
  rw [walls, List.flatMap_map]
  simp only [List.mem_flatMap, List.mem_range, Face.diagonals, List.mem_cons, List.not_mem_nil,
    or_false]

section Walls

variable {lower upper n : ℕ}

private theorem nodup_edges_walls (hn : 3 ≤ n) (hrings : lower + n ≤ upper ∨ upper + n ≤ lower) :
    ((walls lower upper n).flatMap Face.edges).Nodup := by
  rw [walls, List.flatMap_map, List.nodup_flatMap]
  constructor
  · intro i hi
    have := succ_mod_eq (List.mem_range.mp hi)
    simp only [Face.edges, Polyline.cyclicPairs_cons, List.cons_append, List.nil_append,
      Polyline.links_cons_cons, Polyline.links_singleton, List.nodup_cons, List.mem_cons,
      List.not_mem_nil, or_false, Prod.mk.injEq, List.nodup_nil, not_false_eq_true, and_true]
    omega
  · refine List.pairwise_lt_range.imp_of_mem fun {i k} hi hk hlt ↦ ?_
    have hi := succ_mod_eq (List.mem_range.mp hi)
    have hk := succ_mod_eq (List.mem_range.mp hk)
    rw [Function.onFun, List.disjoint_left]
    intro e he he'
    simp only [Face.edges, Polyline.cyclicPairs_cons, List.cons_append, List.nil_append,
      Polyline.links_cons_cons, Polyline.links_singleton, List.mem_cons, List.not_mem_nil,
      or_false, Prod.ext_iff] at he he'
    rcases hi with ⟨hi, -⟩ | ⟨hi, hj⟩
    · omega
    rw [hj] at he
    rcases he with he | he | he | he <;> omega

/-- A wall spans its lower ring and, backwards, its upper ring. -/
theorem spans_walls (hn : 3 ≤ n) (hrings : lower + n ≤ upper ∨ upper + n ≤ lower) :
    Spans (ringEdges lower n ++ (ringEdges upper n).map Prod.swap)
      ((walls lower upper n).flatMap Face.edges) := by
  refine Spans.of_nodup (nodup_edges_walls hn hrings) ?_ ?_
  · intro e he
    rw [mem_edges_walls_iff, mem_edges_walls_iff]
    simp only [List.mem_append, List.mem_map, mem_ringEdges_iff] at he
    rcases he with ⟨i, hi, rfl⟩ | ⟨d, ⟨i, hi, rfl⟩, rfl⟩
    · refine ⟨⟨i, hi, .inl rfl⟩, ?_⟩
      rintro ⟨k, hk, h⟩
      have hi := succ_mod_eq hi
      have hk := succ_mod_eq hk
      simp only [Prod.swap_prod_mk, Prod.mk.injEq] at h
      omega
    · refine ⟨⟨i, hi, .inr (.inr (.inl rfl))⟩, ?_⟩
      rintro ⟨k, hk, h⟩
      have hi := succ_mod_eq hi
      have hk := succ_mod_eq hk
      simp only [Prod.swap_prod_mk, Prod.mk.injEq] at h
      omega
  · intro e he hne
    rw [mem_edges_walls_iff] at he ⊢
    simp only [List.mem_append, List.mem_map, mem_ringEdges_iff, not_or] at hne
    obtain ⟨i, hi, rfl | rfl | rfl | rfl⟩ := he
    · exact absurd ⟨i, hi, rfl⟩ hne.1
    · exact ⟨(i + 1) % n, Nat.mod_lt _ (by omega), .inr (.inr (.inr rfl))⟩
    · exact absurd ⟨_, ⟨i, hi, rfl⟩, rfl⟩ hne.2
    · -- the side at `i` is the near side of the quad before
      obtain ⟨k, hk, hki⟩ : ∃ k < n, (k + 1) % n = i := by
        rcases Nat.eq_zero_or_pos i with rfl | hpos
        · exact ⟨n - 1, by omega, by rw [Nat.sub_add_cancel (by omega), Nat.mod_self]⟩
        · exact ⟨i - 1, by omega, by rw [Nat.sub_add_cancel hpos, Nat.mod_eq_of_lt hi]⟩
      exact ⟨k, hk, .inr (.inl (by rw [hki, Prod.swap_prod_mk]))⟩

theorem ne_of_mem_walls (hn : 3 ≤ n) (hrings : lower + n ≤ upper ∨ upper + n ≤ lower) {e : ℤ × ℤ}
    (he : e ∈ (walls lower upper n).flatMap Face.edges) : e.1 ≠ e.2 := by
  obtain ⟨i, hi, h⟩ := mem_edges_walls_iff.mp he
  have hi := succ_mod_eq hi
  rcases h with rfl | rfl | rfl | rfl <;> simp only <;> omega

theorem mem_ringEdges_of_within_lower (hrings : lower + n ≤ upper ∨ upper + n ≤ lower)
    {e : ℤ × ℤ} (he : e ∈ (walls lower upper n).flatMap Face.edges) (hw : Within lower n e) :
    e ∈ ringEdges lower n := by
  obtain ⟨i, hi, h⟩ := mem_edges_walls_iff.mp he
  have hj := Nat.mod_lt (i + 1) (Nat.zero_lt_of_lt hi)
  rcases h with rfl | rfl | rfl | rfl
  · exact mem_ringEdges_iff.mpr ⟨i, hi, rfl⟩
  all_goals
    simp only [Within] at hw
    omega

/-- An edge of the wall with both ends in the upper ring runs against that ring. -/
theorem swap_mem_ringEdges_of_within_upper (hrings : lower + n ≤ upper ∨ upper + n ≤ lower)
    {e : ℤ × ℤ} (he : e ∈ (walls lower upper n).flatMap Face.edges) (hw : Within upper n e) :
    e.swap ∈ ringEdges upper n := by
  obtain ⟨i, hi, h⟩ := mem_edges_walls_iff.mp he
  have hj := Nat.mod_lt (i + 1) (Nat.zero_lt_of_lt hi)
  rcases h with rfl | rfl | rfl | rfl
  · simp only [Within] at hw
    omega
  · simp only [Within] at hw
    omega
  · exact mem_ringEdges_iff.mpr ⟨i, hi, rfl⟩
  · simp only [Within] at hw
    omega

/-- The diagonals of a wall come in pairs and lead from ring to ring. -/
theorem spans_diagonals_walls (hrings : lower + n ≤ upper ∨ upper + n ≤ lower) :
    Spans [] ((walls lower upper n).flatMap Face.diagonals) := by
  refine Spans.of_nodup ?_ (by simp) ?_
  · rw [walls, List.flatMap_map, List.nodup_flatMap]
    constructor
    · intro i hi
      have hi := List.mem_range.mp hi
      have hj := Nat.mod_lt (i + 1) (Nat.zero_lt_of_lt hi)
      simp only [Face.diagonals, List.nodup_cons, List.mem_cons, List.not_mem_nil, or_false,
        Prod.mk.injEq, List.nodup_nil, not_false_eq_true, and_true]
      omega
    · refine List.pairwise_lt_range.imp_of_mem fun {i k} hi hk hlt ↦ ?_
      have hi := succ_mod_eq (List.mem_range.mp hi)
      have hk := succ_mod_eq (List.mem_range.mp hk)
      rw [Function.onFun, List.disjoint_left]
      intro e he he'
      simp only [Face.diagonals, List.mem_cons, List.not_mem_nil, or_false, Prod.ext_iff]
        at he he'
      omega
  · intro e he _
    rw [mem_diagonals_walls_iff] at he ⊢
    obtain ⟨i, hi, rfl | rfl⟩ := he
    · exact ⟨i, hi, .inr rfl⟩
    · exact ⟨i, hi, .inl rfl⟩

theorem ne_of_mem_diagonals_walls (hrings : lower + n ≤ upper ∨ upper + n ≤ lower) {e : ℤ × ℤ}
    (he : e ∈ (walls lower upper n).flatMap Face.diagonals) :
    e.1 ≠ e.2 ∧ ¬Within lower n e ∧ ¬Within upper n e := by
  obtain ⟨i, hi, h⟩ := mem_diagonals_walls_iff.mp he
  have hj := Nat.mod_lt (i + 1) (Nat.zero_lt_of_lt hi)
  generalize (i + 1) % n = j at hj h
  rcases h with rfl | rfl <;> refine ⟨?_, ?_, ?_⟩ <;> simp only [Within] <;> omega

theorem notMem_diagonals_walls (hn : 3 ≤ n) (hrings : lower + n ≤ upper ∨ upper + n ≤ lower)
    {e : ℤ × ℤ} (he : e ∈ (walls lower upper n).flatMap Face.edges) :
    e ∉ (walls lower upper n).flatMap Face.diagonals := by
  rw [mem_diagonals_walls_iff]
  rintro ⟨k, hk, h'⟩
  obtain ⟨i, hi, h⟩ := mem_edges_walls_iff.mp he
  have hi := succ_mod_eq hi
  have hk := succ_mod_eq hk
  rw [Prod.ext_iff, Prod.ext_iff, Prod.ext_iff, Prod.ext_iff] at h
  rw [Prod.ext_iff, Prod.ext_iff] at h'
  simp only at h h'
  omega

end Walls

end Polyhedron

end SolidModel
