import Mathlib
import SolidModel.Thread.Shell

/-!
# The sections of a thread, one by one

The sections are made in a row, each with the progress that the ones before it have made on the way
in and on the way out. Running in comes first, and running out waits for it even if the end of the
thread is near. So the progress behind any number of sections can be told at once, see
`progressAt`, and with it every section: first those on the way in, then full ones until the thread
runs out, then those on the way out, up to the end.

That the way out is never interrupted by a full section is due to its length. It begins when as many
steps are left as it takes, or later, and so it is never done before the thread ends.
-/

namespace SolidModel

namespace Thread

namespace Plan

variable {K : Type} [Scalar K] (p : Plan K)

/-- How many sections behind the first one are on the way in. -/
def stepsIn : ℕ := if p.leadsIn then (p.leadInSteps - 3).toNat else 0

/-- How many sections behind the first one there are before the way out. -/
def stepsBeforeOut : ℕ :=
  if p.leadsOut then max p.stepsIn (p.steps - p.leadOutSteps).toNat else p.steps

/-- The section on the way in that has `j` others on it before. -/
def sectionIn (j : ℕ) : ThreadSection K :=
  if j = 0 then p.start
  else p.full.withCrest
    (stepped p.start.crestTop p.full.crestTop p.leadInSteps (3 + j : ℕ))
    (stepped p.start.crestBottom p.full.crestBottom p.leadInSteps (3 + j : ℕ))

/-- The section on the way out that has `j` others on it before; the first one is still full. -/
def sectionOut (j : ℕ) : ThreadSection K :=
  if j = 0 then p.full
  else p.full.withCrest (stepped p.full.crestTop p.endTop p.leadOutSteps j)
    (stepped p.full.crestBottom p.endBottom p.leadOutSteps j)

/-- The section behind `k` others and the first. -/
def sectionAt (k : ℕ) : ThreadSection K :=
  if k < p.stepsIn then p.sectionIn k else p.sectionOut (k - p.stepsBeforeOut)

/-- The progress behind `k` sections and the first. -/
def progressAt (k : ℕ) : Progress K where
  leadInStep := (3 + min k p.stepsIn : ℕ)
  leadIn := p.sectionIn (min k p.stepsIn)
  leadOutStep := p.leadOutSteps - (k - p.stepsBeforeOut : ℕ)
  leadOut := p.sectionOut (k - p.stepsBeforeOut)

theorem progressAt_zero : p.progressAt 0 = p.initial := by
  simp [progressAt, initial, sectionIn, sectionOut]

variable {p} {k : ℕ}

theorem sectionIn_succ (j : ℕ) : p.sectionIn (j + 1) = p.full.withCrest
    (stepped p.start.crestTop p.full.crestTop p.leadInSteps (3 + j + 1))
    (stepped p.start.crestBottom p.full.crestBottom p.leadInSteps (3 + j + 1)) := by
  rw [sectionIn, if_neg j.succ_ne_zero]
  push_cast
  rw [add_assoc]

theorem sectionOut_succ (j : ℕ) : p.sectionOut (j + 1) = p.full.withCrest
    (stepped p.full.crestTop p.endTop p.leadOutSteps (j + 1))
    (stepped p.full.crestBottom p.endBottom p.leadOutSteps (j + 1)) := by
  rw [sectionOut, if_neg j.succ_ne_zero, Nat.cast_succ]

/-! ## What one step makes -/

theorem runsIn_iff :
    p.leadsIn ∧ (p.progressAt k).leadInStep < p.leadInSteps ↔ k < p.stepsIn := by
  simp only [progressAt, stepsIn]
  split
  next hin =>
    simp only [hin, true_and]
    omega
  next hin => simp [hin]

/-- Once it has begun, the way out goes on to the end. -/
theorem runsOut_iff (hin : ¬k < p.stepsIn) (hlast : k < p.steps) :
    p.leadsOut ∧ 0 < (p.progressAt k).leadOutStep ∧ (p.steps : ℤ) - p.leadOutSteps ≤ k ↔
      p.stepsBeforeOut ≤ k := by
  simp only [progressAt, stepsBeforeOut]
  split
  next hout =>
    simp only [hout, true_and]
    omega
  next hout => simpa [hout] using hlast

omit [Scalar K] in
/-- The way out does not begin before the way in is over. -/
theorem lt_stepsBeforeOut (hin : k < p.stepsIn) (hlast : k < p.steps) : k < p.stepsBeforeOut := by
  rw [stepsBeforeOut]
  split
  · exact lt_max_of_lt_left hin
  · exact hlast

theorem next_progressAt (hlast : k < p.steps) :
    p.next k (p.progressAt k) = (p.sectionAt k, p.progressAt (k + 1)) := by
  by_cases hin : k < p.stepsIn
  · -- the section that was prepared is made, and the one after it prepared
    have hout := lt_stepsBeforeOut hin hlast
    rw [next, if_pos (runsIn_iff.mpr hin), sectionAt, if_pos hin]
    simp only [progressAt, Nat.min_eq_left hin.le, Nat.min_eq_left (Nat.succ_le_of_lt hin),
      Nat.sub_eq_zero_of_le hout.le, Nat.sub_eq_zero_of_le (Nat.succ_le_of_lt hout), sectionIn_succ]
    push_cast
    rfl
  · have hmin : min k p.stepsIn = p.stepsIn := Nat.min_eq_right (not_lt.mp hin)
    have hmin' : min (k + 1) p.stepsIn = p.stepsIn :=
      Nat.min_eq_right (Nat.le_succ_of_le (not_lt.mp hin))
    rw [next, if_neg (mt runsIn_iff.mp hin), sectionAt, if_neg hin]
    by_cases hout : p.stepsBeforeOut ≤ k
    · have hleft (m j : ℤ) : m - (m - j - 1) = j + 1 := by omega
      rw [if_pos ((runsOut_iff hin hlast).mpr hout)]
      simp only [progressAt, hmin, hmin', Nat.sub_add_comm hout, sectionOut_succ, hleft,
        Nat.cast_succ, sub_add_eq_sub_sub]
    · have hfull : k - p.stepsBeforeOut = 0 := Nat.sub_eq_zero_of_le (not_le.mp hout).le
      have hfull' : k + 1 - p.stepsBeforeOut = 0 := Nat.sub_eq_zero_of_le (not_le.mp hout)
      rw [if_neg (mt (runsOut_iff hin hlast).mp hout)]
      simp only [progressAt, hmin, hmin', hfull, hfull']
      rfl

/-! ## All of them -/

private theorem sectionsFrom_progressAt {count : ℕ} (hlast : k + count ≤ p.steps) :
    p.sectionsFrom count k (p.progressAt k) = (List.range' k count).map p.sectionAt := by
  induction count generalizing k with
  | zero => rfl
  | succ count ih =>
    rw [sectionsFrom, next_progressAt (by omega), List.range'_succ, List.map_cons,
      ← ih (by omega)]

theorem laterSections_eq : p.laterSections = (List.range (p.steps - 1)).map p.sectionAt := by
  rw [laterSections, ← progressAt_zero, sectionsFrom_progressAt (by omega), List.range_eq_range']

theorem zipIdx_laterSections :
    p.laterSections.zipIdx = (List.range (p.steps - 1)).map fun k ↦ (p.sectionAt k, k) := by
  have hlength : p.laterSections.length = p.steps - 1 := by
    rw [laterSections_eq, List.length_map, List.length_range]
  have hpairs := List.zip_map' (f := p.sectionAt) (g := id) (l := List.range (p.steps - 1))
  rw [List.map_id, ← laterSections_eq] at hpairs
  rw [List.zipIdx_eq_zip_range', hlength, ← List.range_eq_range', hpairs]
  rfl

end Plan

end Thread

end SolidModel
