import Mathlib
import SolidModel.Proofs.Plane.QuarterTurn
import SolidModel.Proofs.Thread.Measures

/-!
# The crests of a thread

All roots of a thread are as far from the axis as the minor radius says. Its crests are farther
away, but never farther than the major radius. As the thread runs in they go outwards, and as it
runs out they go inwards again, and between the two there may be any number of full sections or
none: the way in may take up the whole thread, and then the thread just ends before it is full.

What is proved of the crests is proved of the shares of the depth that they have, which do not go
below what the last step out would leave.
-/

namespace SolidModel

variable {K : Type} [Field K] [LinearOrder K] [FloorRing K]

namespace ThreadSpec

variable {t : ThreadSpec K}

open Thread (Plan planned)

/-! ## From section to section -/

/-- The share of the section behind `k` others, the first one included. -/
def shareBehind (t : ThreadSpec K) : ℕ → K
  | 0 => t.startShare
  | k + 1 => t.shareAt k

theorem shareAt_of_lt {k : ℕ} (hk : k < (planned t).stepsIn) : t.shareAt k = t.shareIn k :=
  if_pos hk

theorem shareAt_of_le {k : ℕ} (hk : (planned t).stepsIn ≤ k) :
    t.shareAt k = t.shareOut (k - (planned t).stepsBeforeOut) :=
  if_neg hk.not_gt

/-- The section behind the way in is full, if there is one. -/
private theorem shareAt_stepsIn (h : (planned t).stepsIn < t.stepCount.toNat) :
    t.shareAt (planned t).stepsIn = 1 := by
  have hbefore : (planned t).stepsIn ≤ (planned t).stepsBeforeOut := by
    rw [Plan.stepsBeforeOut]
    split
    · exact le_max_left _ _
    · exact h.le
  rw [shareAt_of_le le_rfl, Nat.sub_eq_zero_of_le hbefore, shareOut_zero]

private theorem lt_leadInCount {j : ℕ} (hj : j < (planned t).stepsIn) :
    (3 + j : ℕ) < t.leadInCount := by
  have hsteps : (planned t).stepsIn ≤ (t.leadInCount - 3).toNat := by
    rw [Plan.stepsIn]
    split
    · exact le_rfl
    · exact Nat.zero_le _
  omega

/-! ## On the way in -/

variable [IsStrictOrderedRing K]

theorem segments_nonneg (h3 : 3 ≤ t.segments) : (0 : K) ≤ t.segments := by
  exact_mod_cast zero_le_three.trans h3

section WayIn

variable (hin : 0 ≤ t.leadIn) (h3 : 3 ≤ t.segments)

include hin h3

theorem two_le_leadInCount : 2 ≤ t.leadInCount := by
  have hturns : 0 ≤ t.segments * t.leadIn / 360 :=
    div_nonneg (mul_nonneg (segments_nonneg h3) hin) (by norm_num)
  rw [leadInCount_eq, Scalar.truncate_eq_floor (by linarith), Int.le_floor]
  push_cast
  linarith

theorem leadInCount_pos : (0 : K) < t.leadInCount := by
  exact_mod_cast zero_lt_two.trans_le (two_le_leadInCount hin h3)

private theorem startShare_pos : 0 < t.startShare := by
  rw [startShare_eq]
  exact div_pos two_pos (leadInCount_pos hin h3)

theorem startShare_le_one : t.startShare ≤ 1 := by
  rw [startShare_eq, div_le_one (leadInCount_pos hin h3)]
  exact_mod_cast two_le_leadInCount hin h3

theorem stepIn_nonneg : 0 ≤ (1 - t.startShare) / t.leadInCount :=
  div_nonneg (sub_nonneg.mpr (startShare_le_one hin h3)) (leadInCount_pos hin h3).le

theorem startShare_le_shareIn (j : ℕ) : t.startShare ≤ t.shareIn j := by
  rw [shareIn]
  by_cases hj : j = 0
  · rw [if_pos hj]
  · rw [if_neg hj, le_add_iff_nonneg_right]
    exact mul_nonneg (stepIn_nonneg hin h3) (Nat.cast_nonneg _)

private theorem shareIn_mono : Monotone t.shareIn := by
  intro i j hij
  by_cases hi : i = 0
  · rw [hi, shareIn, if_pos rfl]
    exact startShare_le_shareIn hin h3 j
  · have hstep := stepIn_nonneg hin h3
    rw [shareIn, shareIn, if_neg hi, if_neg (by omega)]
    gcongr

/-- The way in is over before the steps add up to more than a full section. -/
private theorem shareIn_le_one {j : ℕ} (hj : j < (planned t).stepsIn) : t.shareIn j ≤ 1 := by
  by_cases hj0 : j = 0
  · rw [shareIn, if_pos hj0]
    exact startShare_le_one hin h3
  · have hlast : ((3 + j : ℕ) : K) ≤ t.leadInCount := by
      exact_mod_cast (lt_leadInCount hj).le
    rw [shareIn, if_neg hj0]
    calc t.startShare + (1 - t.startShare) / t.leadInCount * (3 + j : ℕ)
        ≤ t.startShare + (1 - t.startShare) / t.leadInCount * t.leadInCount := by
          have hstep := stepIn_nonneg hin h3
          gcongr
      _ = 1 := by rw [div_mul_cancel₀ _ (leadInCount_pos hin h3).ne', add_sub_cancel]

private theorem shareBehind_le_of_way_in {i j : ℕ} (hij : i ≤ j) (hj : j ≤ (planned t).stepsIn) :
    t.shareBehind i ≤ t.shareBehind j := by
  cases j with
  | zero => rw [Nat.le_zero.mp hij]
  | succ j =>
    rw [shareBehind, shareAt_of_lt hj]
    cases i with
    | zero => exact startShare_le_shareIn hin h3 j
    | succ i =>
      rw [shareBehind, shareAt_of_lt (by omega)]
      exact shareIn_mono hin h3 (Nat.succ_le_succ_iff.mp hij)

end WayIn

/-! ## On the way out -/

private theorem endShare_pos : 0 < t.endShare := by
  rw [endShare]
  split
  next hpos => exact one_div_pos.mpr (by exact_mod_cast hpos)
  next => exact one_pos

theorem endShare_le_one : t.endShare ≤ 1 := by
  rw [endShare]
  split
  next hpos =>
    have hcount : (1 : K) ≤ t.leadOutCount := by exact_mod_cast hpos
    exact (div_le_one (one_pos.trans_le hcount)).mpr hcount
  next => exact le_rfl

section WayOut

variable (hout : 0 ≤ t.leadOut) (h3 : 3 ≤ t.segments)

include hout h3

theorem leadOutCount_nonneg : 0 ≤ t.leadOutCount := by
  have hturns : 0 ≤ t.segments * t.leadOut / 360 :=
    div_nonneg (mul_nonneg (segments_nonneg h3) hout) (by norm_num)
  rw [leadOutCount_eq, Scalar.truncate_eq_floor hturns]
  exact Int.floor_nonneg.mpr hturns

theorem stepOut_nonpos : (t.endShare - 1) / t.leadOutCount ≤ 0 :=
  div_nonpos_of_nonpos_of_nonneg (sub_nonpos.mpr endShare_le_one)
    (by exact_mod_cast leadOutCount_nonneg hout h3)

theorem shareOut_anti : Antitone t.shareOut := by
  intro i j hij
  have hstep := stepOut_nonpos hout h3
  have hcast : (i : K) ≤ j := Nat.cast_le.mpr hij
  rw [shareOut, shareOut, add_le_add_iff_left]
  exact mul_le_mul_of_nonpos_left hcast hstep

private theorem shareOut_le_one (j : ℕ) : t.shareOut j ≤ 1 :=
  (shareOut_anti hout h3 j.zero_le).trans_eq shareOut_zero

private theorem endShare_le_shareOut {j : ℕ} (hj : (j : ℤ) ≤ t.leadOutCount) :
    t.endShare ≤ t.shareOut j := by
  by_cases hcount : t.leadOutCount = 0
  · obtain rfl : j = 0 := by omega
    rw [shareOut_zero]
    exact endShare_le_one
  · have hne : (t.leadOutCount : K) ≠ 0 := by exact_mod_cast hcount
    have hcast : (j : K) ≤ t.leadOutCount := by exact_mod_cast hj
    calc t.endShare = 1 + (t.endShare - 1) / t.leadOutCount * t.leadOutCount := by
          rw [div_mul_cancel₀ _ hne, add_sub_cancel]
      _ ≤ t.shareOut j := by
          rw [shareOut, add_le_add_iff_left]
          exact mul_le_mul_of_nonpos_left hcast (stepOut_nonpos hout h3)

/-- The thread ends before more steps are made out than it is divided into. -/
private theorem sub_stepsBeforeOut_le {k : ℕ} (hk : k < t.stepCount.toNat) :
    ((k - (planned t).stepsBeforeOut : ℕ) : ℤ) ≤ t.leadOutCount := by
  have hcount := leadOutCount_nonneg hout h3
  by_cases hleads : (planned t).leadsOut = true
  · have hbefore : (planned t).stepsBeforeOut
        = max (planned t).stepsIn ((t.stepCount.toNat : ℤ) - t.leadOutCount).toNat := by
      rw [Plan.stepsBeforeOut, if_pos hleads]
      rfl
    omega
  · have hbefore : (planned t).stepsBeforeOut = t.stepCount.toNat := by
      rw [Plan.stepsBeforeOut, if_neg hleads]
      rfl
    omega

end WayOut

/-! ## Along the whole thread -/

private theorem shareBehind_eq_one (hin : t.leadIn = 0) (hout : t.leadOut = 0) {k : ℕ}
    (hk : k < t.stepCount.toNat) : t.shareBehind k = 1 := by
  cases k with
  | zero => exact startShare_of_eq_zero hin
  | succ k => exact shareAt_of_nonpos hin.le hout.le (Nat.lt_of_succ_lt hk)

section

variable (hin : 0 ≤ t.leadIn) (hout : 0 ≤ t.leadOut) (h3 : 3 ≤ t.segments)

include hin hout h3

private theorem shareBehind_pos {k : ℕ} (hk : k < t.stepCount.toNat) : 0 < t.shareBehind k := by
  cases k with
  | zero => exact startShare_pos hin h3
  | succ k =>
    rw [shareBehind]
    by_cases hrun : k < (planned t).stepsIn
    · rw [shareAt_of_lt hrun]
      exact (startShare_pos hin h3).trans_le (startShare_le_shareIn hin h3 k)
    · rw [shareAt_of_le (not_lt.mp hrun)]
      exact endShare_pos.trans_le (endShare_le_shareOut hout h3
        (sub_stepsBeforeOut_le hout h3 (Nat.lt_of_succ_lt hk)))

theorem shareBehind_le_one (k : ℕ) : t.shareBehind k ≤ 1 := by
  cases k with
  | zero => exact startShare_le_one hin h3
  | succ k =>
    rw [shareBehind]
    by_cases hrun : k < (planned t).stepsIn
    · rw [shareAt_of_lt hrun]
      exact shareIn_le_one hin h3 hrun
    · rw [shareAt_of_le (not_lt.mp hrun)]
      exact shareOut_le_one hout h3 _

/-- The crests rise up to the first full section or, if there is none, to the end, and fall from
there on. -/
theorem exists_peak (hsteps : 0 < t.stepCount.toNat) :
    ∃ c < t.stepCount.toNat,
    MonotoneOn t.shareBehind (Set.Iic c) ∧
      AntitoneOn t.shareBehind (Set.Ico c t.stepCount.toNat) := by
  refine ⟨min ((planned t).stepsIn + 1) (t.stepCount.toNat - 1), by omega, ?_, ?_⟩
  · intro i _ j hj hij
    rw [Set.mem_Iic] at hj
    by_cases hrun : j ≤ (planned t).stepsIn
    · exact shareBehind_le_of_way_in hin h3 hij hrun
    · obtain rfl : j = (planned t).stepsIn + 1 := by omega
      have hfull : t.shareBehind ((planned t).stepsIn + 1) = 1 := shareAt_stepsIn (by omega)
      rw [hfull]
      exact shareBehind_le_one hin hout h3 i
  · rintro i ⟨hi, _⟩ j ⟨_, hj⟩ hij
    by_cases hlast : i = j
    · rw [hlast]
    · -- there is a section behind this one, so this one is behind the way in
      obtain ⟨i, rfl⟩ : ∃ i', i = i' + 1 := Nat.exists_eq_add_of_le' (by omega)
      obtain ⟨j, rfl⟩ : ∃ j', j = j' + 1 := Nat.exists_eq_add_of_le' (by omega)
      rw [shareBehind, shareBehind, shareAt_of_le (by omega), shareAt_of_le (by omega)]
      exact shareOut_anti hout h3 (Nat.sub_le_sub_right (Nat.succ_le_succ_iff.mp hij) _)

end

end ThreadSpec

/-! ## Distances from the axis -/

/-- The point is at the given distance from the axis. -/
def Point3.IsOffAxis (p : Point3 K) (distance : K) : Prop :=
  0 ≤ distance ∧ p.x * p.x + p.y * p.y = distance * distance

/-- The points are those of a section with its roots and its crests at the given distances. -/
def ThreadSection.IsAround (roots crests : K) (ring : List (Point3 K)) : Prop :=
  ∃ rootTop crestTop rootBottom crestBottom : Point3 K,
    ring = [rootTop, crestTop, rootBottom, crestBottom] ∧
      rootTop.IsOffAxis roots ∧ rootBottom.IsOffAxis roots ∧
      crestTop.IsOffAxis crests ∧ crestBottom.IsOffAxis crests

private theorem ThreadSpec.isAround_placedAt {t : ThreadSpec K} {d : Point2 K}
    (hd : d.x * d.x + d.y * d.y = 1) {share : K} (hroots : 0 ≤ t.minor / 2)
    (hcrests : 0 ≤ t.radius share) (z : K) :
    ThreadSection.IsAround (t.minor / 2) (t.radius share) ((t.sectionOf share).placedAt d z) := by
  have hplace (r : K) : d.x * r * (d.x * r) + d.y * r * (d.y * r) = r * r := by
    calc d.x * r * (d.x * r) + d.y * r * (d.y * r) = (d.x * d.x + d.y * d.y) * (r * r) := by ring
      _ = r * r := by rw [hd, one_mul]
  rw [placedAt_sectionOf]
  exact ⟨_, _, _, _, rfl, ⟨hroots, hplace _⟩, ⟨hroots, hplace _⟩, ⟨hcrests, hplace _⟩,
    ⟨hcrests, hplace _⟩⟩

namespace Thread

/-- The roots of all sections are on the minor diameter. The distance `r k` of the crests behind `k`
other sections is larger than that of the roots and never larger than that of full crests, and it
does not go down before some section or up behind it. -/
structure RisesAndFalls (t : ThreadSpec K) (rings : List (List (Point3 K))) (r : ℕ → K) :
    Prop where
  length_eq : (rings.length : ℤ) = t.stepCount
  isAround : ∀ k (hk : k < rings.length), ThreadSection.IsAround (t.minor / 2) (r k) rings[k]
  minor_lt : ∀ k < rings.length, t.minor / 2 < r k
  le_major : ∀ k < rings.length, r k ≤ t.major / 2
  peak : ∃ c < rings.length, MonotoneOn r (Set.Iic c) ∧ AntitoneOn r (Set.Ico c rings.length)
  full : t.leadIn = 0 → t.leadOut = 0 → ∀ k < rings.length, r k = t.major / 2

open ThreadSpec

variable [Trig K] {t : ThreadSpec K}

theorem length_rings_planned (h : Fits t) :
    (planned t).rings.length = t.stepCount.toNat := by
  have htwo := h.two_le
  rw [rings_planned, List.length_cons, List.length_map, List.length_range]
  omega

private theorem isAround_rings_planned
    (hcircle : ∀ a : K, Trig.cos a * Trig.cos a + Trig.sin a * Trig.sin a = 1) {k : ℕ}
    (hroots : 0 ≤ t.minor / 2) (hcrests : 0 ≤ t.radius (t.shareBehind k))
    (hk : k < (planned t).rings.length) : ThreadSection.IsAround (t.minor / 2)
      (t.radius (t.shareBehind k)) ((planned t).rings[k]) := by
  simp only [rings_planned]
  cases k with
  | zero => exact isAround_placedAt (hcircle 0) hroots hcrests 0
  | succ k =>
    rw [List.getElem_cons_succ, List.getElem_map, List.getElem_range]
    exact isAround_placedAt (hcircle _) hroots hcrests _

/-- **The crests of a thread rise and fall.** Whichever part of the thread its way in and its way
out take up, all roots are on the minor diameter and all crests outside of it, on the major diameter
at most. They go outwards up to some section and inwards from there on, and are all on the major
diameter if there is no way in and no way out. -/
theorem risesAndFalls_of_shell [IsStrictOrderedRing K]
    (hcircle : ∀ a : K, Trig.cos a * Trig.cos a + Trig.sin a * Trig.sin a = 1)
    (hminor : 0 ≤ t.minor) (hin : 0 ≤ t.leadIn) (hout : 0 ≤ t.leadOut) {p : Polyhedron K}
    (h : shell t = .ok p) : ∃ rings r, p.points = rings.flatten ∧ RisesAndFalls t rings r := by
  obtain ⟨hfits, -, rfl⟩ := (shell_eq_ok_iff t).mp h
  have h3 := hfits.three_le
  have htwo := hfits.two_le
  have hlength := length_rings_planned hfits
  have hmono := (radius_strictMono hfits.minor_lt).monotone
  have hroots : 0 ≤ t.minor / 2 := div_nonneg hminor zero_le_two
  have houtside {k : ℕ} (hk : k < (planned t).rings.length) :
      t.minor / 2 < t.radius (t.shareBehind k) := by
    rw [← t.radius_zero]
    exact radius_strictMono hfits.minor_lt (shareBehind_pos hin hout h3 (hk.trans_eq hlength))
  refine ⟨(planned t).rings, t.radius ∘ t.shareBehind, rfl, ?_⟩
  constructor
  case length_eq =>
    rw [hlength]
    omega
  case isAround =>
    intro k hk
    exact isAround_rings_planned hcircle hroots (hroots.trans (houtside hk).le) hk
  case minor_lt => exact fun k hk ↦ houtside hk
  case le_major =>
    intro k _
    rw [← t.radius_one]
    exact hmono (shareBehind_le_one hin hout h3 k)
  case peak =>
    obtain ⟨c, hc, hrise, hfall⟩ := exists_peak hin hout h3 (by omega)
    rw [hlength]
    exact ⟨c, hc, hmono.comp_monotoneOn hrise, hmono.comp_antitoneOn hfall⟩
  case full =>
    intro hin0 hout0 k hk
    rw [Function.comp_apply, shareBehind_eq_one hin0 hout0 (hk.trans_eq hlength), t.radius_one]

/-- A thread of six sections whose way in and way out take a whole turn each. -/
def overlappingThread : ThreadSpec ℚ := ⟨2, 3, 1, 11 / 5, 4, 360, 360, true⟩

open scoped QuarterTurn in
/-- Of its sections only the fifth is full, and the sixth is lower again. -/
theorem risesAndFalls_of_shell_overlappingThread :
    ∃ p rings r, shell overlappingThread = .ok p ∧ p.points = rings.flatten ∧
      RisesAndFalls overlappingThread rings r := by
  have hfits : Fits overlappingThread := ⟨by decide, by decide, by decide, by decide +kernel⟩
  have hmade := (shell_eq_ok_iff overlappingThread).mpr ⟨hfits, by decide +kernel, rfl⟩
  have hcircle (a : ℚ) : Trig.cos a * Trig.cos a + Trig.sin a * Trig.sin a = 1 :=
    QuarterTurn.sine_mul_sine_add (QuarterTurn.quarters a)
  obtain ⟨rings, r, hpoints, hcrests⟩ :=
    risesAndFalls_of_shell hcircle (by decide) (by decide) (by decide) hmade
  exact ⟨_, rings, r, hmade, hpoints, hcrests⟩

end Thread

end SolidModel
