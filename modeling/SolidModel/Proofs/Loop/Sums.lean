import Mathlib
import SolidModel.Proofs.Loop.Links

/-!
# Sums over the edges of a loop

The area of a loop and its winding number add up a value of each directed edge that changes its
sign with the direction. Such sums are *additive*: a loop that is cut along a diagonal has the
sum of its two parts, since the diagonal is passed once in each direction.
-/

namespace SolidModel

namespace Polyline

variable {α G : Type} [AddCommGroup G]

/-- The sum of a value of the directed edges around a loop. -/
def edgeSum (f : α × α → G) (loop : List α) : G := ((cyclicPairs loop).map f).sum

/-- Does the value change its sign with the direction of the edge? -/
def Alternates (f : α × α → G) : Prop := ∀ a b, f (b, a) = -f (a, b)

variable {f : α × α → G}

theorem Alternates.map {β : Type} (hf : Alternates f) (g : β → α) :
    Alternates fun e : β × β ↦ f (Prod.map g g e) := fun a b ↦ hf (g a) (g b)

theorem edgeSum_cons (a : α) (l : List α) :
    edgeSum f (a :: l) = ((links (a :: l ++ [a])).map f).sum := by
  rw [edgeSum, cyclicPairs_cons]

theorem edgeSum_of_isRotated {l m : List α} (h : l ~r m) : edgeSum f l = edgeSum f m :=
  ((cyclicPairs_perm h).map f).sum_eq

theorem edgeSum_map {β : Type} (g : β → α) (l : List β) :
    edgeSum f (l.map g) = edgeSum (fun e ↦ f (Prod.map g g e)) l := by
  rw [edgeSum, cyclicPairs_map, List.map_map]
  rfl

theorem edgeSum_triple (a b c : α) :
    edgeSum f [a, b, c] = f (a, b) + f (b, c) + f (c, a) := by
  rw [edgeSum_cons]
  simp [add_assoc]

theorem edgeSum_pair (hf : Alternates f) (a b : α) : edgeSum f [a, b] = 0 := by
  rw [edgeSum_cons]
  simp [hf a b]

theorem edgeSum_concat (a b : α) (l : List α) :
    edgeSum f (a :: l ++ [b]) = ((links (a :: l ++ [b])).map f).sum + f (b, a) := by
  rw [edgeSum, cyclicPairs_cons_append_cons a b l []]
  simp

/-- **A loop cut along a diagonal.** -/
theorem edgeSum_cut (hf : Alternates f) (a b : α) (l m : List α) :
    edgeSum f (a :: l ++ b :: m) = edgeSum f (a :: l ++ [b]) + edgeSum f (b :: m ++ [a]) := by
  rw [edgeSum, cyclicPairs_cons_append_cons, List.map_append, List.sum_append, edgeSum_concat,
    edgeSum_concat, hf a b]
  abel

private theorem links_reverse (l : List α) :
    links l.reverse = ((links l).map Prod.swap).reverse := by
  induction l with
  | nil => rfl
  | cons a l ih =>
    cases l with
    | nil => rfl
    | cons b l =>
      rw [List.reverse_cons, List.reverse_cons, List.append_assoc, List.singleton_append,
        links_append_cons, ← List.reverse_cons, ih, links_cons_cons, links_cons_cons,
        links_singleton, List.map_cons, List.reverse_cons, Prod.swap_prod_mk]

theorem cyclicPairs_reverse_perm (l : List α) :
    (cyclicPairs l.reverse).Perm ((cyclicPairs l).map Prod.swap) := by
  cases l with
  | nil => exact List.Perm.refl _
  | cons a l =>
    have hrot : (a :: l).reverse ~r a :: l.reverse := by
      rw [List.reverse_cons]
      exact List.isRotated_concat a l.reverse
    refine (cyclicPairs_perm hrot).trans ?_
    have hlist : a :: l.reverse ++ [a] = (a :: l ++ [a]).reverse := by simp
    rw [cyclicPairs_cons, cyclicPairs_cons, hlist, links_reverse]
    exact List.reverse_perm _

theorem mem_cyclicPairs_reverse_iff {l : List α} {e : α × α} :
    e ∈ cyclicPairs l.reverse ↔ e.swap ∈ cyclicPairs l := by
  rw [(cyclicPairs_reverse_perm l).mem_iff, ← Prod.swap_swap e,
    List.mem_map_of_injective Prod.swap_injective, Prod.swap_swap]

theorem eq_of_mem_cyclicPairs' {a b c : α} {l : List α} (hnd : l.Nodup)
    (hb : (b, a) ∈ cyclicPairs l) (hc : (c, a) ∈ cyclicPairs l) : b = c :=
  eq_of_mem_cyclicPairs (List.nodup_reverse.mpr hnd) (mem_cyclicPairs_reverse_iff.mpr hb)
    (mem_cyclicPairs_reverse_iff.mpr hc)

theorem edgeSum_reverse (hf : Alternates f) (l : List α) :
    edgeSum f l.reverse = -edgeSum f l := by
  have hswap : f ∘ Prod.swap = fun e ↦ -f e := funext fun e ↦ hf e.1 e.2
  rw [edgeSum, ((cyclicPairs_reverse_perm l).map f).sum_eq, List.map_map, hswap, edgeSum,
    List.sum_neg, List.map_map]
  rfl

/-- Along an open list differences of a value of its elements leave those at its ends. -/
theorem sum_links_sub (g : α → G) (a b : α) (l : List α) :
    ((links (a :: l ++ [b])).map fun e ↦ g e.1 - g e.2).sum = g a - g b := by
  induction l generalizing a with
  | nil => simp
  | cons c l ih =>
    rw [List.cons_append, List.cons_append, links_cons_cons, List.map_cons, List.sum_cons,
      ← List.cons_append, ih c]
    abel

theorem edgeSum_sub (g : α → G) (l : List α) : edgeSum (fun e ↦ g e.1 - g e.2) l = 0 := by
  cases l with
  | nil => rfl
  | cons a l => rw [edgeSum_cons, sum_links_sub, sub_self]

theorem edgeSum_mul_right {R : Type} [Ring R] (f : α × α → R) (c : R) (l : List α) :
    edgeSum (fun e ↦ f e * c) l = edgeSum f l * c :=
  List.sum_map_mul_right _ _ _

end Polyline

end SolidModel
