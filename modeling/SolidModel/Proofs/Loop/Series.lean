import Mathlib
import SolidModel.Proofs.Loop.Sums

/-!
# Loops given by a rule

The points of a circle or of a star come in blocks, one for each step around it: a single point, or
the point of a ray and the one between it and the next. A rule gives the block of every step, and
after the last step it is back at its first head. So the edges of such a loop are those of its
blocks, each with the head of the next block at its end. Given by its positions, an edge leads from
a position to the one after it, see `sum_range_eq_edgeSum`.
-/

namespace SolidModel

namespace Polyline

variable {α G : Type} [AddCommGroup G] {head : ℕ → α} {tail : ℕ → List α} {n : ℕ}

theorem sum_flatMap {β : Type} (l : List β) (g : β → List G) :
    (l.flatMap g).sum = (l.map fun b ↦ (g b).sum).sum := by
  rw [List.flatMap_def, List.sum_flatten, List.map_map]
  rfl

theorem flatMap_range_map_range (f : ℕ → ℕ → α) (blocks size : ℕ) :
    ((List.range blocks).flatMap fun i ↦ (List.range size).map (f i))
      = (List.range (blocks * size)).map fun m ↦ f (m / size) (m % size) := by
  induction blocks with
  | zero => simp
  | succ blocks ih =>
    rw [List.range_succ, List.flatMap_append, ih, List.flatMap_singleton, Nat.succ_mul,
      List.range_add, List.map_append, List.map_map]
    congr 1
    refine List.map_congr_left fun j hj ↦ ?_
    have hj : j < size := List.mem_range.mp hj
    have hblock : (blocks * size + j) / size = blocks := by
      rw [Nat.mul_comm, Nat.mul_add_div (Nat.zero_lt_of_lt hj), Nat.div_eq_of_lt hj, Nat.add_zero]
    rw [Function.comp_apply, Nat.mul_add_mod_of_lt hj, hblock]

theorem rotateLeft_map_range {f : ℕ → α} (hf : Function.Periodic f n)
    (k : ℕ) : ((List.range n).map f).rotateLeft k = (List.range n).map fun i ↦ f (i + k) := by
  rw [rotateLeft_eq_rotate]
  refine List.ext_getElem (by simp) fun i _ _ ↦ ?_
  rw [List.getElem_rotate, List.getElem_map, List.getElem_map, List.getElem_range,
    List.getElem_range, List.length_map, List.length_range, hf.map_mod_nat]

theorem links_flatMap_range (head : ℕ → α) (tail : ℕ → List α) (n : ℕ) :
    links ((List.range n).flatMap (fun i ↦ head i :: tail i) ++ [head n])
      = (List.range n).flatMap fun i ↦ links (head i :: tail i ++ [head (i + 1)]) := by
  induction n with
  | zero => rfl
  | succ n ih =>
    rw [List.range_succ, List.flatMap_append, List.flatMap_append, List.flatMap_singleton,
      List.flatMap_singleton, ← ih, List.append_assoc, List.cons_append, links_append_cons]

theorem cyclicPairs_flatMap_range (hturn : head n = head 0) :
    cyclicPairs ((List.range n).flatMap fun i ↦ head i :: tail i)
      = (List.range n).flatMap fun i ↦ links (head i :: tail i ++ [head (i + 1)]) := by
  rw [← links_flatMap_range, hturn]
  cases n with
  | zero => rfl
  | succ n => rw [List.range_succ_eq_map, List.flatMap_cons, List.cons_append, cyclicPairs_cons]

theorem cyclicPairs_map_range (hturn : head n = head 0) :
    cyclicPairs ((List.range n).map head) = (List.range n).map fun i ↦ (head i, head (i + 1)) := by
  rw [List.map_eq_flatMap, List.map_eq_flatMap]
  exact cyclicPairs_flatMap_range hturn

/-- If every block adds the same, the loop has so many times that. -/
theorem edgeSum_flatMap_range {f : α × α → G} {g : G} (head : ℕ → α) (tail : ℕ → List α)
    (hturn : head n = head 0)
    (h : ∀ i, ((links (head i :: tail i ++ [head (i + 1)])).map f).sum = g) :
    edgeSum f ((List.range n).flatMap fun i ↦ head i :: tail i) = n • g := by
  rw [edgeSum, cyclicPairs_flatMap_range hturn, List.map_flatMap, sum_flatMap]
  simp only [h]
  rw [List.map_const', List.length_range, List.sum_replicate]

theorem links_map_range (head : ℕ → α) (n : ℕ) :
    links ((List.range (n + 1)).map head) = (List.range n).map fun i ↦ (head i, head (i + 1)) := by
  have hrow : (List.range (n + 1)).map head
      = (List.range n).flatMap (fun i ↦ [head i]) ++ [head n] := by
    rw [List.range_succ, List.map_append, List.map_singleton, ← List.map_eq_flatMap]
  rw [hrow, links_flatMap_range, List.map_eq_flatMap]
  rfl

theorem sum_links_range {f : α × α → G} {g : G} (head : ℕ → α)
    (h : ∀ i, f (head i, head (i + 1)) = g) (n : ℕ) :
    ((links ((List.range (n + 1)).map head)).map f).sum = n • g := by
  rw [links_map_range, List.map_map, Function.comp_def]
  simp only [h]
  rw [List.map_const', List.length_range, List.sum_replicate]

/-- A sum over positions and the ones after them is a sum over edges. -/
theorem sum_range_eq_edgeSum {f : α × α → G} (g : ℕ → ℕ → G) (loop : List α)
    (h : ∀ (i j : ℕ) (hi : i < loop.length) (hj : j < loop.length),
      g i j = f (loop[i], loop[j])) :
    ((List.range loop.length).map fun i ↦ g i ((i + 1) % loop.length)).sum = edgeSum f loop := by
  refine congrArg List.sum (List.ext_getElem (by simp) fun i hi _ ↦ ?_)
  have hi : i < loop.length := by simpa using hi
  have hnext : (i + 1) % loop.length < loop.length := Nat.mod_lt _ (Nat.zero_lt_of_lt hi)
  rw [List.getElem_map, List.getElem_map, List.getElem_range, h i _ hi hnext]
  exact congrArg f (get_cyclicPairs loop i hi).symm

end Polyline

end SolidModel
