import Std.Data.HashMap

/-!
# Counting by kind

How often each kind of thing occurs in a list, with the kinds in the order in which they first
occur. The counts are looked up by kind, so counting takes one pass.
-/

namespace SolidModel

/-- The kinds of things in a list, the latest first, and how many there are of each. -/
structure Tally (α : Type) [BEq α] [Hashable α] where
  latestFirst : List α
  counts : Std.HashMap α Nat

namespace Tally

variable {α : Type} [BEq α] [Hashable α]

/-- Nothing counted. -/
def empty : Tally α := ⟨[], ∅⟩

/-- One more thing. -/
def add (t : Tally α) (a : α) : Tally α :=
  match t.counts[a]? with
  | some n => { t with counts := t.counts.insert a (n + 1) }
  | none => ⟨a :: t.latestFirst, t.counts.insert a 1⟩

/-- The tally of a list. -/
def ofList (items : List α) : Tally α := items.foldl add empty

/-- How many things of a kind there are. -/
def count (t : Tally α) (a : α) : Nat := t.counts.getD a 0

/-- The kinds in the order of their first occurrence. -/
def kinds (t : Tally α) : List α := t.latestFirst.reverse

@[simp] theorem count_empty (a : α) : (empty : Tally α).count a = 0 := by simp [empty, count]

/-! ## The list behind a tally -/

/-- The kinds are those that have a count, each once. -/
structure Listed (t : Tally α) : Prop where
  nodup : t.latestFirst.Nodup
  mem_iff : ∀ a, a ∈ t.latestFirst ↔ a ∈ t.counts

theorem listed_empty : (empty : Tally α).Listed :=
  ⟨List.nodup_nil, by simp [empty]⟩

variable [LawfulBEq α] [LawfulHashable α]

/-- One more thing raises the count of its kind by one, and no other. -/
theorem count_add (t : Tally α) (a b : α) :
    (t.add a).count b = t.count b + if a == b then 1 else 0 := by
  unfold add count
  split <;> rename_i h <;> simp only [Std.HashMap.getD_insert] <;> split <;>
    simp_all [Std.HashMap.getD_eq_getD_getElem?]

theorem count_foldl_add (items : List α) (t : Tally α) (a : α) :
    (items.foldl add t).count a = t.count a + items.count a := by
  induction items generalizing t with
  | nil => simp
  | cons b rest ih =>
    rw [List.foldl_cons, ih, count_add, List.count_cons]
    omega

@[simp] theorem count_ofList (items : List α) (a : α) :
    (ofList items).count a = items.count a := by
  simp [ofList, count_foldl_add]

theorem Listed.add {t : Tally α} (h : t.Listed) (a : α) : (t.add a).Listed := by
  unfold Tally.add
  split <;> rename_i hc
  · have ha : a ∈ t.counts := by simp [← Std.HashMap.isSome_getElem?_iff_mem, hc]
    refine ⟨h.nodup, fun b => ?_⟩
    by_cases hb : b = a
    · simp [hb, h.mem_iff, ha]
    · simp [h.mem_iff, Ne.symm hb]
  · have ha : a ∉ t.counts := by simp [← Std.HashMap.isSome_getElem?_iff_mem, hc]
    refine ⟨List.nodup_cons.mpr ⟨by rwa [h.mem_iff], h.nodup⟩, fun b => ?_⟩
    simp [h.mem_iff, eq_comm (a := a)]

theorem listed_foldl_add (items : List α) {t : Tally α} (h : t.Listed) :
    (items.foldl Tally.add t).Listed := by
  induction items generalizing t with
  | nil => exact h
  | cons a rest ih => exact ih (h.add a)

theorem listed_ofList (items : List α) : (ofList items).Listed :=
  listed_foldl_add items listed_empty

theorem mem_counts_foldl_add (items : List α) (t : Tally α) (a : α) :
    a ∈ (items.foldl Tally.add t).counts ↔ a ∈ t.counts ∨ a ∈ items := by
  induction items generalizing t with
  | nil => simp
  | cons b rest ih =>
    have hb : a ∈ (t.add b).counts ↔ a ∈ t.counts ∨ a = b := by
      unfold Tally.add
      split <;> simp [Std.HashMap.mem_insert, or_comm, eq_comm (a := a)]
    rw [List.foldl_cons, ih, List.mem_cons, ← or_assoc, hb]

@[simp] theorem mem_kinds_ofList {items : List α} {a : α} :
    a ∈ (ofList items).kinds ↔ a ∈ items := by
  rw [kinds, List.mem_reverse, (listed_ofList items).mem_iff, ofList, mem_counts_foldl_add]
  simp [empty]

end Tally

end SolidModel
