import Mathlib.Data.List.Sort
import Mathlib.Data.List.TakeWhile
import Mathlib.Order.Bounds.Basic

/-!
# Searching ascending keys

Among ascending keys another one is looked for by halving the room that is left for it. What is
found is the place where it would be put in, behind all that are equal to it: the keys before that
place are not above it, those from there on are. The last key before the place is then the greatest
one not above it. Where there is none, because all keys are above it, the least of them has to do;
so every key is rounded to one of those given, downward if that is possible.

Neither a place nor what a key is rounded to says how it was found. So two searches that keep to the
one agree, and what holds of rounding holds of every look-up that rounds.
-/

namespace SolidModel

namespace Search

variable {α β : Type} [LinearOrder α] {keys : List α} {key : α}

/-! ## Insertion points -/

/-- The keys before place `i` are at most `key`, and those from it on are above it. -/
structure IsInsertionPoint (keys : List α) (key : α) (i : ℕ) : Prop where
  le_length : i ≤ keys.length
  le_of_lt : ∀ (j : ℕ) (hj : j < keys.length), j < i → keys[j] ≤ key
  lt_of_le : ∀ (j : ℕ) (hj : j < keys.length), i ≤ j → key < keys[j]

namespace IsInsertionPoint

variable {i : ℕ}

/-- Without the first key all places are one lower, but for the first place, which stays. -/
theorem tail {first : α} (h : IsInsertionPoint (first :: keys) key i) :
    IsInsertionPoint keys key (i - 1) where
  le_length := by
    have hlength := h.le_length
    rw [List.length_cons] at hlength
    omega
  le_of_lt j hj hlt := h.le_of_lt (j + 1) (Nat.succ_lt_succ hj) (by omega)
  lt_of_le j hj hle := h.lt_of_le (j + 1) (Nat.succ_lt_succ hj) (by omega)

/-- Going on while the keys are not above the one looked for leads to its place. The keys need not
ascend for that, as long as the place is one. -/
theorem takeWhile_eq {l : List β} {f : β → α} (h : IsInsertionPoint (l.map f) key i) :
    (l.takeWhile fun b ↦ decide (f b ≤ key)) = l.take i := by
  have hbefore : ∀ b ∈ l.take i, decide (f b ≤ key) = true := by
    intro b hb
    obtain ⟨j, hj, rfl⟩ := List.getElem_of_mem hb
    rw [List.length_take] at hj
    have hle := h.le_of_lt j (by rw [List.length_map]; omega) (by omega)
    rw [List.getElem_map] at hle
    rw [List.getElem_take]
    exact decide_eq_true hle
  have hbehind : ((l.drop i).takeWhile fun b ↦ decide (f b ≤ key)) = [] := by
    rw [List.takeWhile_eq_nil_iff]
    intro hpos
    rw [List.length_drop] at hpos
    have hlt := h.lt_of_le i (by rw [List.length_map]; omega) le_rfl
    rw [List.getElem_map] at hlt
    simpa using hlt
  conv_lhs => rw [← List.take_append_drop i l]
  rw [List.takeWhile_append_of_pos hbefore, hbehind, List.append_nil]

end IsInsertionPoint

/-! ## Bisection -/

/-- The place of `key` between `low` and `high`, found by halving. -/
def bisectBetween (keys : List α) (key : α) (low high : ℕ) (h : high ≤ keys.length) : ℕ :=
  if hlt : low < high then
    have hmiddle : (low + high) / 2 < keys.length := by omega
    if key < keys[(low + high) / 2] then
      bisectBetween keys key low ((low + high) / 2) hmiddle.le
    else
      bisectBetween keys key ((low + high) / 2 + 1) high h
  else low
termination_by high - low

/-- The place of `key` among all keys. -/
def bisect (keys : List α) (key : α) : ℕ := bisectBetween keys key 0 keys.length le_rfl

/-- The place of `key` is not before `low` and not behind `high`. -/
structure Narrowed (keys : List α) (key : α) (low high : ℕ) : Prop where
  le : low ≤ high
  le_of_lt : ∀ (j : ℕ) (hj : j < keys.length), j < low → keys[j] ≤ key
  lt_of_le : ∀ (j : ℕ) (hj : j < keys.length), high ≤ j → key < keys[j]

namespace Narrowed

variable {low high middle : ℕ}

theorem below (hsorted : keys.SortedLE) (h : Narrowed keys key low high)
    (hmiddle : middle < keys.length) (hlow : low ≤ middle) (hlt : key < keys[middle]) :
    Narrowed keys key low middle where
  le := hlow
  le_of_lt := h.le_of_lt
  lt_of_le _ _ hle := hlt.trans_le (hsorted.getElem_le_getElem_of_le hle)

theorem above (hsorted : keys.SortedLE) (h : Narrowed keys key low high)
    (hmiddle : middle < keys.length) (hhigh : middle < high) (hle : keys[middle] ≤ key) :
    Narrowed keys key (middle + 1) high where
  le := hhigh
  le_of_lt _ _ hlt := (hsorted.getElem_le_getElem_of_le (Nat.le_of_lt_succ hlt)).trans hle
  lt_of_le := h.lt_of_le

/-- Halving goes on until no room is left, and the two ends are the place. -/
theorem isInsertionPoint (hsorted : keys.SortedLE) (h : Narrowed keys key low high)
    (hlength : high ≤ keys.length) :
    IsInsertionPoint keys key (bisectBetween keys key low high hlength) := by
  fun_induction bisectBetween keys key low high hlength with
  | case1 low high hlength hlt hmiddle hkey ih =>
    exact ih (h.below hsorted hmiddle (by omega) hkey)
  | case2 low high hlength hlt hmiddle hkey ih =>
    exact ih (h.above hsorted hmiddle (by omega) (not_lt.mp hkey))
  | case3 low high hlength hge =>
    obtain rfl : low = high := le_antisymm h.le (not_lt.mp hge)
    exact ⟨hlength, h.le_of_lt, h.lt_of_le⟩

end Narrowed

private theorem narrowed_all (keys : List α) (key : α) : Narrowed keys key 0 keys.length where
  le := Nat.zero_le _
  le_of_lt j _ hlt := absurd hlt j.not_lt_zero
  lt_of_le _ hj hle := absurd hj hle.not_gt

/-- Bisection finds the place of every key, whether it is among the others or not. -/
theorem isInsertionPoint_bisect (hsorted : keys.SortedLE) (key : α) :
    IsInsertionPoint keys key (bisect keys key) :=
  (narrowed_all keys key).isInsertionPoint hsorted le_rfl

/-! ## Rounding -/

/-- The greatest of the keys not above `key` is `k`; or all of them are above it, and `k` is the
least. -/
def RoundsTo (keys : List α) (key k : α) : Prop :=
  IsGreatest {s | s ∈ keys ∧ s ≤ key} k ∨ (∀ s ∈ keys, key < s) ∧ IsLeast {s | s ∈ keys} k

namespace RoundsTo

variable {key' k k' : α}

theorem mem (h : RoundsTo keys key k) : k ∈ keys := by
  obtain hgreatest | ⟨-, hleast⟩ := h
  · exact hgreatest.1.1
  · exact hleast.1

theorem mono (h : RoundsTo keys key k) (h' : RoundsTo keys key' k') (hle : key ≤ key') :
    k ≤ k' := by
  obtain hgreatest | ⟨-, hleast⟩ := h
  · obtain ⟨hmem, hk⟩ := hgreatest.1
    obtain hgreatest' | ⟨hall, -⟩ := h'
    · exact hgreatest'.2 ⟨hmem, hk.trans hle⟩
    · exact absurd (hall k hmem) (hk.trans hle).not_gt
  · exact hleast.2 h'.mem

theorem unique (h : RoundsTo keys key k) (h' : RoundsTo keys key k') : k = k' :=
  le_antisymm (h.mono h' le_rfl) (h'.mono h le_rfl)

theorem self (h : key ∈ keys) : RoundsTo keys key key :=
  .inl ⟨⟨h, le_rfl⟩, fun _ hs ↦ hs.2⟩

/-- The key before an insertion point, or the first one if there is none before it. -/
theorem of_isInsertionPoint {i : ℕ} (hsorted : keys.SortedLE) (h : IsInsertionPoint keys key i)
    (hi : i - 1 < keys.length) : RoundsTo keys key keys[i - 1] := by
  cases i with
  | zero =>
    refine .inr ⟨?_, List.getElem_mem hi, ?_⟩
    · intro s hs
      obtain ⟨j, hj, rfl⟩ := List.getElem_of_mem hs
      exact h.lt_of_le j hj (Nat.zero_le j)
    · intro s hs
      obtain ⟨j, hj, rfl⟩ := List.getElem_of_mem hs
      exact hsorted.getElem_le_getElem_of_le (Nat.zero_le j)
  | succ i =>
    refine .inl ⟨⟨List.getElem_mem hi, h.le_of_lt i hi i.lt_succ_self⟩, ?_⟩
    rintro s ⟨hs, hle⟩
    obtain ⟨j, hj, rfl⟩ := List.getElem_of_mem hs
    have hlt : j < i + 1 := by
      by_contra hge
      exact hle.not_gt (h.lt_of_le j hj (not_lt.mp hge))
    exact hsorted.getElem_le_getElem_of_le (Nat.le_of_lt_succ hlt)

end RoundsTo

end Search

end SolidModel
