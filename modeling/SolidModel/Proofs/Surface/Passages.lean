import Mathlib
import SolidModel.Proofs.Loop.Sums
import SolidModel.Proofs.Surface.Checks

/-!
# Verdicts as counts of passages

Going around the faces of a polyhedron, every step leads from a vertex to the next one. How often
`b` comes right after `a` is the number of passages from `a` to `b`, and the two checks of a surface
are statements on these numbers alone. Nothing is asked of the faces: they may be of any length, run
through a vertex several times, stay at it, or name positions that no point takes.

So whatever keeps the numbers of passages, or exchanges the two directions of all of them, keeps
both verdicts.
-/

namespace SolidModel

/-! ## Counting passages -/

namespace Face

/-- How often `b` comes right after `a` in going once around the face. -/
def passages (f : Face) (a b : ℤ) : ℕ :=
  (List.range f.length).countP fun i ↦ f[i]? = some a ∧ f[(i + 1) % f.length]? = some b

private theorem edges_eq_map (f : Face) :
    f.edges = (List.finRange f.length).map fun i ↦
      (f.get i, f.get ⟨(i + 1) % f.length, Nat.mod_lt _ i.pos⟩) := by
  refine List.ext_get (by simp [edges]) fun i hi _ ↦ ?_
  have hi : i < f.length := by simpa [edges] using hi
  have hpair := Polyline.get_cyclicPairs f i hi
  simpa [edges] using hpair

theorem count_edges (f : Face) (a b : ℤ) : f.edges.count (a, b) = f.passages a b := by
  rw [passages, ← List.map_coe_finRange_eq_range, List.countP_map, edges_eq_map, List.count,
    List.countP_map]
  refine List.countP_congr fun i _ ↦ ?_
  have hi : (i + 1) % f.length < f.length := Nat.mod_lt _ i.pos
  simp [hi]

theorem passages_of_isRotated {f g : Face} (h : f ~r g) (a b : ℤ) :
    f.passages a b = g.passages a b := by
  rw [← count_edges, ← count_edges]
  exact (Polyline.cyclicPairs_perm h).count_eq _

theorem passages_reverse (f : Face) (a b : ℤ) : passages f.reverse a b = f.passages b a := by
  rw [← count_edges, ← count_edges, edges, (Polyline.cyclicPairs_reverse_perm f).count_eq]
  exact List.count_map_of_injective f.edges Prod.swap Prod.swap_injective (b, a)

theorem passages_self_eq_zero_iff {f : Face} :
    (∀ a, f.passages a a = 0) ↔ ∀ e ∈ f.edges, e.1 ≠ e.2 := by
  simp only [← count_edges, List.count_eq_zero]
  exact ⟨fun h e he heq ↦ h e.1 (by rwa [show (e.1, e.1) = e from Prod.ext rfl heq]),
    fun h a ha ↦ h _ ha rfl⟩

private theorem count_map_undirected_self (edges : List (ℤ × ℤ)) (a : ℤ) :
    (edges.map undirected).count (undirected (a, a)) = edges.count (a, a) := by
  rw [List.count, List.countP_map]
  refine List.countP_congr fun e _ ↦ ?_
  simp [undirected_eq_iff]

end Face

namespace Polyhedron

variable {K : Type}

/-- How often `b` comes right after `a` in going around all faces. -/
def passages (p : Polyhedron K) (a b : ℤ) : ℕ := (p.faces.map (·.passages a b)).sum

/-- How often the vertices `a` and `b` follow each other, in whichever order. -/
def traversals (p : Polyhedron K) (a b : ℤ) : ℕ :=
  if a = b then p.passages a b else p.passages a b + p.passages b a

variable {p q : Polyhedron K}

theorem count_edges (p : Polyhedron K) (a b : ℤ) : p.edges.count (a, b) = p.passages a b := by
  rw [edges, List.count_flatMap, passages]
  exact congrArg List.sum (List.map_congr_left fun f _ ↦ f.count_edges a b)

theorem passages_pos_iff {a b : ℤ} : 0 < p.passages a b ↔ (a, b) ∈ p.edges := by
  rw [← count_edges, List.count_pos_iff]

private theorem count_map_undirected (p : Polyhedron K) (a b : ℤ) :
    (p.edges.map Face.undirected).count (Face.undirected (a, b)) = p.traversals a b := by
  rw [traversals]
  split
  next h =>
    subst h
    rw [Face.count_map_undirected_self, count_edges]
  next h =>
    rw [Face.count_map_undirected p.edges h, count_edges, Prod.swap_prod_mk, count_edges]

/-! ## The verdicts -/

theorem oriented_ok_iff_passages :
    p.oriented.ok = true ↔
      ∀ a b, p.passages a b = p.passages b a ∧ p.passages a b ≤ 1 := by
  rw [oriented_ok_iff]
  constructor
  · intro h a b
    by_cases hab : (a, b) ∈ p.edges
    · obtain ⟨h1, h2⟩ := h.across (a, b) hab List.not_mem_nil
      rw [Prod.swap_prod_mk, count_edges] at h2
      rw [count_edges] at h1
      omega
    · have hba : (b, a) ∉ p.edges := fun hba ↦
        hab (h.swap_mem_of_notMem_border hba List.not_mem_nil)
      rw [← passages_pos_iff] at hab hba
      omega
  · intro h
    refine ⟨by simp, fun ⟨a, b⟩ he _ ↦ ?_⟩
    have hpos := passages_pos_iff.mpr he
    have hle := h a b
    rw [Prod.swap_prod_mk, count_edges, count_edges]
    omega

private theorem traversals_pos_iff {a b : ℤ} :
    0 < p.traversals a b ↔ (a, b) ∈ p.edges ∨ (b, a) ∈ p.edges := by
  rw [← passages_pos_iff, ← passages_pos_iff, traversals]
  split
  next h => rw [h, or_self]
  next h => omega

theorem traversals_comm (p : Polyhedron K) (a b : ℤ) : p.traversals a b = p.traversals b a := by
  rw [traversals, traversals]
  split
  next h => rw [if_pos h.symm, h]
  next h => rw [if_neg (Ne.symm h), Nat.add_comm]

theorem watertight_ok_iff_traversals :
    p.watertight.ok = true ↔ (∃ a b, 0 < p.passages a b) ∧
      ∀ a b, 0 < p.traversals a b → p.traversals a b = 2 := by
  have hne : p.edges ≠ [] ↔ ∃ a b, 0 < p.passages a b := by
    simp only [passages_pos_iff, ne_eq, List.eq_nil_iff_forall_not_mem, not_forall, not_not,
      Prod.exists]
  rw [watertight_ok_iff, hne]
  refine and_congr_right fun _ ↦ ?_
  constructor
  · intro h a b hab
    rcases traversals_pos_iff.mp hab with hab | hba
    · rw [← count_map_undirected, h _ hab]
    · rw [traversals_comm, ← count_map_undirected, h _ hba]
  · rintro h ⟨a, b⟩ hab
    rw [count_map_undirected, h a b (traversals_pos_iff.mpr (.inl hab))]

/-! ## Changes that the checks do not see -/

/-- Both verdicts depend on the numbers of passages only, and not on the sense of going around. -/
theorem verdicts_eq (h : (∀ a b, q.passages a b = p.passages a b) ∨
    ∀ a b, q.passages a b = p.passages b a) :
    q.oriented.ok = p.oriented.ok ∧ q.watertight.ok = p.watertight.ok := by
  have htraversals : (∀ a b, q.traversals a b = p.traversals a b) := by
    intro a b
    rcases h with h | h
    · simp only [traversals, h]
    · rw [traversals_comm p]
      simp only [traversals, h, eq_comm (a := a)]
  refine ⟨?_, ?_⟩
  · rw [Bool.eq_iff_iff, oriented_ok_iff_passages, oriented_ok_iff_passages]
    rcases h with h | h
    · simp only [h]
    · simp only [h]
      exact forall_comm
  · rw [Bool.eq_iff_iff, watertight_ok_iff_traversals, watertight_ok_iff_traversals]
    simp only [htraversals]
    refine and_congr_left fun _ ↦ ?_
    rcases h with h | h
    · simp only [h]
    · simp only [h]
      exact exists_comm

private theorem passages_eq_of_perm (h : q.faces.Perm p.faces) (a b : ℤ) :
    q.passages a b = p.passages a b := (h.map _).sum_eq

private theorem passages_eq_of_isRotated (h : List.Forall₂ (· ~r ·) q.faces p.faces) (a b : ℤ) :
    q.passages a b = p.passages a b := by
  have hfaces : q.faces.map (·.passages a b) = p.faces.map (·.passages a b) := by
    rw [← List.forall₂_eq_eq_eq, List.forall₂_map_left_iff, List.forall₂_map_right_iff]
    exact h.imp fun f g hfg ↦ Face.passages_of_isRotated hfg a b
  rw [passages, passages, hfaces]

private theorem passages_eq_of_reverse (h : q.faces = p.faces.map List.reverse) (a b : ℤ) :
    q.passages a b = p.passages b a := by
  rw [passages, h, List.map_map, passages]
  exact congrArg List.sum (List.map_congr_left fun f _ ↦ Face.passages_reverse f a b)

/-- **The verdicts of the two checks.** A surface is oriented if no passage is repeated and each is
made both ways, and watertight if there are passages and each edge is traversed twice. So an
oriented surface is watertight if it has edges and no face stays at a vertex. The order of the
faces, where each of them starts, and the sense of all of them together make no difference. -/
theorem verdicts_of_passages (p : Polyhedron K) :
    (p.oriented.ok = true ↔
      ∀ a b, p.passages a b = p.passages b a ∧ p.passages a b ≤ 1) ∧
    (p.watertight.ok = true ↔ (∃ a b, 0 < p.passages a b) ∧
      ∀ a b, 0 < p.traversals a b → p.traversals a b = 2) ∧
    ((∃ a b, 0 < p.passages a b) → (∀ f ∈ p.faces, ∀ a, f.passages a a = 0) →
      p.oriented.ok = true → p.watertight.ok = true) ∧
    ∀ q : Polyhedron K, q.faces.Perm p.faces ∨ List.Forall₂ (· ~r ·) q.faces p.faces ∨
        q.faces = p.faces.map List.reverse →
      q.oriented.ok = p.oriented.ok ∧ q.watertight.ok = p.watertight.ok := by
  refine ⟨oriented_ok_iff_passages, watertight_ok_iff_traversals, fun hne hstays horiented ↦ ?_,
    fun q hq ↦ verdicts_eq ?_⟩
  · have hself : ∀ a, p.passages a a = 0 := fun a ↦
      List.sum_eq_zero (by simpa using fun f hf ↦ hstays f hf a)
    refine watertight_ok_iff_traversals.mpr ⟨hne, fun a b hab ↦ ?_⟩
    have hpassages := oriented_ok_iff_passages.mp horiented a b
    rw [traversals] at hab ⊢
    split at hab
    next h =>
      rw [h, hself] at hab
      exact absurd hab (lt_irrefl 0)
    next h =>
      rw [if_neg h]
      omega
  · rcases hq with hperm | hrotated | hreverse
    · exact .inl (passages_eq_of_perm hperm)
    · exact .inl (passages_eq_of_isRotated hrotated)
    · exact .inr (passages_eq_of_reverse hreverse)

/-- A triangle and its back side, over positions that no point takes. -/
def twoSided : Polyhedron ℚ := ⟨[], [[7, -1, 4], [4, -1, 7]], none⟩

theorem verdicts_of_passages_twoSided :
    twoSided.oriented.ok = true ∧ twoSided.watertight.ok = true ∧
      ∀ q : Polyhedron ℚ, q.faces = [[-1, 4, 7], [7, 4, -1]] →
        q.oriented.ok = true ∧ q.watertight.ok = true := by
  have horiented : twoSided.oriented.ok = true :=
    oriented_ok_iff.mpr (.of_nodup (by decide) (by decide) (by decide))
  have hstays : ∀ f ∈ twoSided.faces, ∀ a, f.passages a a = 0 := by
    intro f hf
    rw [Face.passages_self_eq_zero_iff]
    revert f
    decide
  obtain ⟨-, -, hwatertight, hsame⟩ := verdicts_of_passages twoSided
  have hok := hwatertight ⟨7, -1, by decide⟩ hstays horiented
  refine ⟨horiented, hok, fun q hq ↦ ?_⟩
  have hrotated : List.Forall₂ (· ~r ·) q.faces twoSided.faces := by
    rw [hq]
    exact .cons (by decide) (.cons (by decide) .nil)
  obtain ⟨h1, h2⟩ := hsame q (.inr (.inl hrotated))
  exact ⟨h1.trans horiented, h2.trans hok⟩

end Polyhedron

end SolidModel
