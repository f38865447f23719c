import Mathlib
import SolidModel.Fastener.Metric
import SolidModel.Proofs.Fastener.Bisection

/-!
# The row of a size

The table of metric threads has a row for some sizes only, and any integer may be asked for. The row
it takes is read off the table from the smallest size upward; searching the sizes leads to the same
one. So the row is known without running through the table: its size is what the size asked for is
rounded to, and that fixes the row.

Only the sizes are looked at. What the other columns hold makes no difference here, nor what numbers
they are written in.
-/

namespace SolidModel

namespace MetricThread

open Search

variable {K : Type} [Scalar K]

/-! ## The sizes -/

variable (K) in
/-- The sizes that have a row, in ascending order. -/
def sizes : List ℤ := (table : List (MetricThread K)).map fun t ↦ (t.size : ℤ)

variable (K) in
theorem sortedLT_sizes : (sizes K).SortedLT := by
  rw [List.sortedLT_iff_isChain]
  simp [sizes, table, smallest, larger]

theorem mem_sizes {t : MetricThread K} (h : t ∈ table) : (t.size : ℤ) ∈ sizes K :=
  List.mem_map_of_mem h

theorem eq_of_size_eq {t u : MetricThread K} (ht : t ∈ table) (hu : u ∈ table)
    (h : t.size = u.size) : t = u :=
  List.inj_on_of_nodup_map (sortedLT_sizes K).nodup ht hu (congrArg Nat.cast h)

/-! ## Looking a row up -/

/-- The row of exactly this size. -/
def row? (size : ℤ) : Option (MetricThread K) := table.find? fun t ↦ (t.size : ℤ) == size

/-- The row of the size before place `i`. Nothing is before place zero, and the subtraction stays
there: the first row has to do. -/
def rowBefore? (i : ℕ) : Option (MetricThread K) := (sizes K)[i - 1]?.bind row?

theorem row?_size {t : MetricThread K} (h : t ∈ table) : row? (t.size : ℤ) = some t := by
  obtain ⟨u, hu⟩ : ∃ u : MetricThread K, row? (t.size : ℤ) = some u := by
    rw [← Option.isSome_iff_exists, row?, List.find?_isSome]
    exact ⟨t, h, beq_self_eq_true _⟩
  have hsize := List.find?_some hu
  rw [beq_iff_eq, Int.natCast_inj] at hsize
  rw [hu, eq_of_size_eq (List.mem_of_find?_eq_some hu) h hsize]

variable {m : ℤ} {i : ℕ}

/-- Reading the table upward ends at the row before the place of `m`, or at the first one. -/
theorem getElem?_table (h : IsInsertionPoint (sizes K) m i) :
    (table : List (MetricThread K))[i - 1]? = some (ofSize m) := by
  have hread := (IsInsertionPoint.tail h).takeWhile_eq
  have hlength : i - 1 < (table : List (MetricThread K)).length := by
    have hi := h.le_length
    rw [sizes, List.length_map] at hi
    have hpos : 0 < (table : List (MetricThread K)).length := Nat.succ_pos _
    omega
  -- The smallest row stands before those that are read, so one row more is taken than is read.
  have hlast : (table.take (i - 1 + 1)).getLast? = some (ofSize m : MetricThread K) := by
    rw [ofSize, hread, ← List.getLast?_cons]
    rfl
  rwa [List.getLast?_take, if_neg (Nat.succ_ne_zero _), Nat.add_sub_cancel,
    List.getElem?_eq_getElem hlength, Option.some_or, ← List.getElem?_eq_getElem hlength] at hlast

theorem ofSize_mem_table (m : ℤ) : (ofSize m : MetricThread K) ∈ table :=
  List.mem_of_getElem?
    (getElem?_table (isInsertionPoint_bisect (sortedLT_sizes K).sortedLE m))

private theorem getElem?_sizes (h : IsInsertionPoint (sizes K) m i) :
    (sizes K)[i - 1]? = some ((ofSize m : MetricThread K).size : ℤ) := by
  rw [sizes, List.getElem?_map, getElem?_table h, Option.map_some]

private theorem rowBefore?_eq (h : IsInsertionPoint (sizes K) m i) :
    rowBefore? i = some (ofSize m : MetricThread K) := by
  rw [rowBefore?, getElem?_sizes h, Option.bind_some, row?_size (ofSize_mem_table m)]

variable (K) in
theorem roundsTo_ofSize (m : ℤ) : RoundsTo (sizes K) m (ofSize m : MetricThread K).size := by
  have hsorted := (sortedLT_sizes K).sortedLE
  have hplace := isInsertionPoint_bisect hsorted m
  obtain ⟨hi, hsize⟩ := List.getElem?_eq_some_iff.mp (getElem?_sizes hplace)
  rw [← hsize]
  exact RoundsTo.of_isInsertionPoint hsorted hplace hi

/-! ## What row a size takes -/

/-- A row of the table, of the size that `m` is rounded to. -/
def Serves (t : MetricThread K) (m : ℤ) : Prop := t ∈ table ∧ RoundsTo (sizes K) m t.size

theorem serves_iff {t : MetricThread K} : t.Serves m ↔ t = ofSize m := by
  constructor
  · rintro ⟨hmem, hrounds⟩
    have hsize := hrounds.unique (roundsTo_ofSize K m)
    exact eq_of_size_eq hmem (ofSize_mem_table m) (Int.natCast_inj.mp hsize)
  · rintro rfl
    exact ⟨ofSize_mem_table m, roundsTo_ofSize K m⟩

variable (K) in
theorem monotone_size : Monotone fun m : ℤ ↦ (ofSize m : MetricThread K).size :=
  fun m n h ↦ Int.ofNat_le.mp ((roundsTo_ofSize K m).mono (roundsTo_ofSize K n) h)

theorem ofSize_size {t : MetricThread K} (h : t ∈ table) : ofSize t.size = t :=
  (serves_iff.mp ⟨h, .self (mem_sizes h)⟩).symm

/-- **The row of a size.** For every integer there is one row: that of the greatest size not above
it, or of the smallest size where there is none. Whatever search of the sizes finds the place of the
integer, behind an equal size, the row before that place is this one. So a greater size never takes
the row of a smaller one, and a row is what its own size takes. -/
theorem ofSize_of_search {search : List ℤ → ℤ → ℕ}
    (hsearch : ∀ (keys : List ℤ) (key : ℤ), keys.SortedLE →
      IsInsertionPoint keys key (search keys key)) :
    (∀ m : ℤ, rowBefore? (search (sizes K) m) = some (ofSize m : MetricThread K)) ∧
    (∀ (m : ℤ) (t : MetricThread K), t.Serves m ↔ t = ofSize m) ∧
    Monotone (fun m : ℤ ↦ (ofSize m : MetricThread K).size) ∧
    ∀ m : ℤ, ofSize ((ofSize m : MetricThread K).size : ℤ) = (ofSize m : MetricThread K) :=
  ⟨fun m ↦ rowBefore?_eq (hsearch _ m (sortedLT_sizes K).sortedLE), fun _ _ ↦ serves_iff,
    monotone_size K, fun m ↦ ofSize_size (ofSize_mem_table m)⟩

/-- Bisection is such a search. On doubles a size between two rows takes the lower one, and sizes
beyond either end take the row at that end. -/
theorem ofSize_of_search_bisect :
    (∀ (keys : List ℤ) (key : ℤ), keys.SortedLE → IsInsertionPoint keys key (bisect keys key)) ∧
    rowBefore? (bisect (sizes Float) 13) = some (ofSize 13 : MetricThread Float) ∧
    (ofSize 13 : MetricThread Float).size = 12 ∧
    (ofSize 12 : MetricThread Float) = ofSize 13 ∧
    (ofSize (-4) : MetricThread Float).size = 2 ∧
    (ofSize 1000000000000000000000 : MetricThread Float).size = 100 := by
  have hbisect : ∀ (keys : List ℤ) (key : ℤ), keys.SortedLE →
      IsInsertionPoint keys key (bisect keys key) :=
    fun _ key hsorted ↦ isInsertionPoint_bisect hsorted key
  have hsize : (ofSize 13 : MetricThread Float).size = 12 := by decide
  obtain ⟨hfound, -, -, hown⟩ := ofSize_of_search (K := Float) hbisect
  have hagain := hown 13
  rw [hsize] at hagain
  exact ⟨hbisect, hfound 13, hsize, hagain, by decide, by decide⟩

end MetricThread

end SolidModel
