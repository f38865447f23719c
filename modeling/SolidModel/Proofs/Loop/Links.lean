import Mathlib
import SolidModel.Triangulation.EarClipping

/-!
# The edges of a closed loop

`Polyline.cyclicPairs` reads the edges of a loop off a list that starts somewhere. What is said
about edges here does not depend on where: rotating the list permutes its edges, so a loop may
always be written from the place that suits an argument.

Written as `a :: l`, the edges of a loop are the `links` of the open list `a :: l ++ [a]`. Links
split at any inner element, which is how a loop is cut along a diagonal and how a single vertex
is taken out of it.
-/

namespace SolidModel

namespace Polyline

variable {α β : Type}

/-- The pairs of neighbours of an open list. -/
def links : List α → List (α × α)
  | a :: b :: l => (a, b) :: links (b :: l)
  | _ => []

@[simp] theorem links_nil : links ([] : List α) = [] := rfl

@[simp] theorem links_singleton (a : α) : links [a] = [] := rfl

@[simp] theorem links_cons_cons (a b : α) (l : List α) :
    links (a :: b :: l) = (a, b) :: links (b :: l) := rfl

/-- An open list is cut at an element, which ends one part and starts the other. -/
theorem links_append_cons (l m : List α) (a : α) :
    links (l ++ a :: m) = links (l ++ [a]) ++ links (a :: m) := by
  induction l with
  | nil => simp
  | cons b l ih =>
    cases l with
    | nil => simp
    | cons c l => simpa using ih

theorem links_concat {l : List α} {a : α} (h : l.getLast? = some a) (b : α) :
    links (l ++ [b]) = links l ++ [(a, b)] := by
  obtain ⟨m, rfl⟩ := List.getLast?_eq_some_iff.mp h
  rw [List.append_assoc, List.singleton_append, links_append_cons, links_cons_cons,
    links_singleton]

theorem links_eq_zip : ∀ (a : α) (l : List α), links (a :: l) = (a :: l).zip l
  | _, [] => rfl
  | _, b :: l => by rw [links_cons_cons, links_eq_zip b l, List.zip_cons_cons]

theorem links_map (f : α → β) : ∀ l : List α, links (l.map f) = (links l).map (Prod.map f f)
  | [] => rfl
  | a :: l => by rw [List.map_cons, links_eq_zip, links_eq_zip, ← List.zip_map, List.map_cons]

theorem fst_mem_of_mem_links {l : List α} {e : α × α} (h : e ∈ links l) : e.1 ∈ l := by
  cases l with
  | nil => simp at h
  | cons a l =>
    rw [links_eq_zip] at h
    exact (List.of_mem_zip h).1

theorem snd_mem_of_mem_links {a : α} {l : List α} {e : α × α} (h : e ∈ links (a :: l)) :
    e.2 ∈ l := by
  rw [links_eq_zip] at h
  exact (List.of_mem_zip h).2

theorem fst_mem_of_mem_links_concat {l : List α} {a : α} {e : α × α} (h : e ∈ links (l ++ [a])) :
    e.1 ∈ l := by
  rcases List.eq_nil_or_concat' l with rfl | ⟨l, b, rfl⟩
  · simp at h
  · rw [List.append_assoc, List.singleton_append, links_append_cons, List.mem_append] at h
    rcases h with h | h
    · exact fst_mem_of_mem_links h
    · simp only [links_cons_cons, links_singleton, List.mem_singleton] at h
      simp [h]

theorem mem_links_append_left {l : List α} {e : α × α} (h : e ∈ links l) (m : List α) :
    e ∈ links (l ++ m) := by
  rcases List.eq_nil_or_concat' l with rfl | ⟨l, b, rfl⟩
  · simp at h
  · rw [List.append_assoc, List.singleton_append, links_append_cons]
    exact List.mem_append_left _ h

theorem exists_mem_links {l : List α} {u : α} (h : u ∈ l) (a : α) :
    ∃ w, (u, w) ∈ links (l ++ [a]) := by
  obtain ⟨s, t, rfl⟩ := List.append_of_mem h
  obtain ⟨w, k, hk⟩ := List.exists_cons_of_ne_nil (l := t ++ [a]) (by simp)
  refine ⟨w, ?_⟩
  rw [List.append_assoc, List.cons_append, hk, links_append_cons, links_cons_cons]
  exact List.mem_append_right _ List.mem_cons_self

/-- What does not change along a link is the same all along the list. -/
theorem eq_of_links {f : α → β} {l : List α} (h : ∀ e ∈ links l, f e.1 = f e.2) {u w : α}
    (hu : u ∈ l) (hw : w ∈ l) : f u = f w := by
  have hhead : ∀ (a : α) (l : List α), (∀ e ∈ links (a :: l), f e.1 = f e.2) →
      ∀ u ∈ a :: l, f u = f a := by
    intro a l
    induction l generalizing a with
    | nil =>
      intro _ u hu
      rw [List.mem_singleton.mp hu]
    | cons b l ih =>
      intro h u hu
      rw [links_cons_cons, List.forall_mem_cons] at h
      rcases List.mem_cons.mp hu with rfl | hu
      · rfl
      · rw [ih b h.2 u hu, h.1]
  cases l with
  | nil => exact absurd hu List.not_mem_nil
  | cons a l => rw [hhead a l h u hu, hhead a l h w hw]

/-! ## A loop from any of its elements on -/

theorem rotateLeft_eq_rotate (l : List α) (n : ℕ) : l.rotateLeft n = l.rotate n := by
  rw [List.rotate_eq_drop_append_take_mod, List.rotateLeft]
  split
  next h =>
    match l, h with
    | [], _ => simp
    | [a], _ => simp [Nat.mod_one]
  next => rfl

theorem rotateRight_concat (l : List α) (a : α) : (l ++ [a]).rotateRight 1 = a :: l := by
  rw [List.rotateRight]
  cases l with
  | nil => simp
  | cons b l =>
    have h : (b :: l ++ [a]).length - 1 % (b :: l ++ [a]).length = (b :: l).length := by
      simp only [List.length_append, List.length_cons, List.length_nil]
      rw [Nat.mod_eq_of_lt (by omega)]
      omega
    rw [if_neg (by simp), h]
    simp only [List.drop_left, List.take_left, List.singleton_append]

theorem rotateRight_one_eq_rotate (l : List α) : l.rotateRight 1 = l.rotate (l.length - 1) := by
  rcases List.eq_nil_or_concat' l with rfl | ⟨m, a, rfl⟩
  · simp
  · rw [rotateRight_concat, List.length_append, List.length_singleton, Nat.add_sub_cancel,
      List.rotate_append_length_eq, List.singleton_append]

/-- Read from an inner place on, a loop of three or more elements has the next element second
and the one before last. -/
theorem exists_drop_append_take_eq (l : List α) {i : ℕ} (hi : i < l.length)
    (hl : 3 ≤ l.length) :
    ∃ m, l.drop (i + 1) ++ l.take i
      = l.get ⟨(i + 1) % l.length, Nat.mod_lt _ (by omega)⟩
        :: (m ++ [l.get ⟨(i + (l.length - 1)) % l.length, Nat.mod_lt _ (by omega)⟩]) := by
  have hrot : l.rotate i = l[i] :: (l.drop (i + 1) ++ l.take i) := by
    rw [List.rotate_eq_drop_append_take hi.le, ← List.getElem_cons_drop hi, List.cons_append]
  have hlen : (l.drop (i + 1) ++ l.take i).length = l.length - 1 := by
    simp only [List.length_append, List.length_drop, List.length_take]
    omega
  have hget : ∀ j (hj : j < l.length), l.get ⟨(j + i) % l.length, Nat.mod_lt _ (by omega)⟩
      = (l[i] :: (l.drop (i + 1) ++ l.take i)).get ⟨j, by rw [List.length_cons]; omega⟩ := by
    intro j hj
    rw [List.get_eq_getElem, List.get_eq_getElem]
    have hj' : j < (l.rotate i).length := by rwa [List.length_rotate]
    rw [← List.getElem_rotate l i j hj']
    exact List.getElem_of_eq hrot hj'
  simp only [List.get_eq_getElem] at hget ⊢
  obtain ⟨b, w, hw⟩ := List.exists_cons_of_length_pos (l := l.drop (i + 1) ++ l.take i) (by omega)
  obtain rfl | ⟨m, a, rfl⟩ := List.eq_nil_or_concat' w
  · rw [hw, List.length_singleton] at hlen
    omega
  have hm : l.length = m.length + 3 := by
    rw [hw, List.length_cons, List.length_append, List.length_singleton] at hlen
    omega
  have hb := hget 1 (by omega)
  have ha := hget (m.length + 1 + 1) (by omega)
  simp only [hw, List.getElem_cons_succ, List.getElem_cons_zero,
    List.getElem_concat_length] at ha hb
  refine ⟨m, ?_⟩
  rw [hw, ← ha, ← hb]
  simp only [hm, Nat.add_comm i, show m.length + 3 - 1 = m.length + 1 + 1 from rfl]

theorem cyclicPairs_cons (a : α) (l : List α) : cyclicPairs (a :: l) = links (a :: l ++ [a]) := by
  have hzip : ((a :: l) ++ [a]).zip ((l ++ [a]) ++ []) = (a :: l).zip (l ++ [a]) ++ [a].zip [] :=
    List.zip_append (by simp)
  rw [cyclicPairs, rotateLeft_eq_rotate, List.rotate_cons_succ, List.rotate_zero,
    List.cons_append, links_eq_zip]
  simpa using hzip.symm

/-- A loop cut at an inner element into the way there and the way back. -/
theorem cyclicPairs_cons_append_cons (a b : α) (l m : List α) :
    cyclicPairs (a :: l ++ b :: m) = links (a :: l ++ [b]) ++ links (b :: m ++ [a]) := by
  rw [List.cons_append, cyclicPairs_cons, ← List.cons_append, List.append_assoc]
  exact links_append_cons (a :: l) (m ++ [a]) b

private theorem cyclicPairs_concat_perm (a : α) (l : List α) :
    (cyclicPairs (l ++ [a])).Perm (cyclicPairs (a :: l)) := by
  cases l with
  | nil => exact List.Perm.refl _
  | cons b l =>
    rw [cyclicPairs_cons_append_cons, cyclicPairs_cons]
    exact List.perm_append_comm

theorem cyclicPairs_perm {l m : List α} (h : l ~r m) : (cyclicPairs l).Perm (cyclicPairs m) := by
  obtain ⟨n, rfl⟩ := h
  induction n generalizing l with
  | zero => rw [List.rotate_zero]
  | succ n ih =>
    cases l with
    | nil => rw [List.rotate_nil]
    | cons a l =>
      rw [List.rotate_cons_succ]
      exact (cyclicPairs_concat_perm a l).symm.trans ih

theorem mem_cyclicPairs_iff {l m : List α} (h : l ~r m) {e : α × α} :
    e ∈ cyclicPairs l ↔ e ∈ cyclicPairs m := (cyclicPairs_perm h).mem_iff

theorem fst_mem_of_mem_cyclicPairs {l : List α} {e : α × α} (h : e ∈ cyclicPairs l) :
    e.1 ∈ l := (List.of_mem_zip h).1

theorem snd_mem_of_mem_cyclicPairs {l : List α} {e : α × α} (h : e ∈ cyclicPairs l) :
    e.2 ∈ l := by
  have h := (List.of_mem_zip h).2
  rwa [rotateLeft_eq_rotate, List.mem_rotate] at h

theorem mem_of_end {l : List α} {e : α × α} (h : e ∈ cyclicPairs l) {c : α}
    (hc : c = e.1 ∨ c = e.2) : c ∈ l := by
  rcases hc with rfl | rfl
  · exact fst_mem_of_mem_cyclicPairs h
  · exact snd_mem_of_mem_cyclicPairs h

/-- Position by position: the edge from each element to the next, the first following the
last. -/
theorem get_cyclicPairs (l : List α) (i : ℕ) (hi : i < l.length) :
    (cyclicPairs l).get ⟨i, by simpa using hi⟩
      = (l[i], l.get ⟨(i + 1) % l.length, Nat.mod_lt _ (Nat.zero_lt_of_lt hi)⟩) := by
  simp only [cyclicPairs, List.get_eq_getElem, rotateLeft_eq_rotate, List.getElem_zip,
    List.getElem_rotate]

theorem cyclicPairs_map (f : α → β) (l : List α) :
    cyclicPairs (l.map f) = (cyclicPairs l).map (Prod.map f f) := by
  rw [cyclicPairs, cyclicPairs, rotateLeft_eq_rotate, rotateLeft_eq_rotate, ← List.map_rotate,
    List.zip_map]

/-! ## Edges of a loop without repetition -/

theorem exists_isRotated_of_mem {a : α} {l : List α} (h : a ∈ l) : ∃ m, l ~r a :: m := by
  obtain ⟨s, t, rfl⟩ := List.append_of_mem h
  exact ⟨t ++ s, List.isRotated_append⟩

theorem eq_of_mem_cyclicPairs {a b c : α} {l : List α} (hnd : l.Nodup)
    (hb : (a, b) ∈ cyclicPairs l) (hc : (a, c) ∈ cyclicPairs l) : b = c := by
  obtain ⟨m, hrot⟩ := exists_isRotated_of_mem (fst_mem_of_mem_cyclicPairs hb)
  have ha : a ∉ m := (List.nodup_cons.mp (hrot.nodup_iff.mp hnd)).1
  rw [mem_cyclicPairs_iff hrot, cyclicPairs_cons] at hb hc
  obtain ⟨x, n, hn⟩ := List.exists_cons_of_ne_nil (l := m ++ [a]) (by simp)
  have hnext : ∀ y, (a, y) ∈ links (a :: m ++ [a]) → y = x := by
    intro y hy
    rw [List.cons_append, hn, links_cons_cons, List.mem_cons, Prod.mk.injEq, ← hn] at hy
    exact hy.elim And.right fun h ↦ absurd (fst_mem_of_mem_links_concat h) ha
  rw [hnext b hb, hnext c hc]

theorem exists_isRotated_of_mem_cyclicPairs {a b : α} {l : List α} (hnd : l.Nodup)
    (h2 : 2 ≤ l.length) (h : (a, b) ∈ cyclicPairs l) : ∃ m, l ~r a :: b :: m := by
  obtain ⟨m, hrot⟩ := exists_isRotated_of_mem (fst_mem_of_mem_cyclicPairs h)
  cases m with
  | nil =>
    rw [hrot.perm.length_eq, List.length_singleton] at h2
    omega
  | cons c m =>
    have hc : (a, c) ∈ cyclicPairs l := by
      rw [mem_cyclicPairs_iff hrot, cyclicPairs_cons]
      exact List.mem_cons_self
    rw [eq_of_mem_cyclicPairs hnd h hc]
    exact ⟨m, hrot⟩

/-- A loop read from two of its edges that follow each other. -/
theorem exists_isRotated_of_corner {a b c : α} {l : List α} (hnd : l.Nodup) (h3 : 3 ≤ l.length)
    (hab : (a, b) ∈ cyclicPairs l) (hbc : (b, c) ∈ cyclicPairs l) :
    ∃ m, l ~r a :: b :: c :: m := by
  obtain ⟨m, hrot⟩ := exists_isRotated_of_mem_cyclicPairs hnd (by omega) hab
  cases m with
  | nil =>
    rw [hrot.perm.length_eq] at h3
    simp at h3
  | cons d m =>
    have hd : (b, d) ∈ cyclicPairs l := by
      rw [mem_cyclicPairs_iff hrot, cyclicPairs_cons]
      exact List.mem_cons_of_mem _ List.mem_cons_self
    rw [eq_of_mem_cyclicPairs hnd hbc hd]
    exact ⟨m, hrot⟩

end Polyline

end SolidModel
