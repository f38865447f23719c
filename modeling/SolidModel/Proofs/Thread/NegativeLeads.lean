import Mathlib
import SolidModel.Proofs.Plane.QuarterTurn
import SolidModel.Proofs.Thread.Measures

/-!
# Threads that run in over negative angles

A thread only runs in or out over positive angles. The way out over any other angle is as good as
none. This does not hold of the way in, since the first section is worked out before it is asked
whether there is one, and its crests are moved by a number of steps in which the angle counts. So a
negative angle has no part in any check, and in no section but the first, and that one it spoils:
its crests are beyond the major diameter or inside of the minor one, or no step is left at all and
the division by their number fails.
-/

namespace SolidModel

open Outcome

variable {K : Type} [Field K] [LinearOrder K] [FloorRing K]

namespace ThreadSpec

/-- The measures of the same thread without a way in or a way out. -/
def withoutLeads (t : ThreadSpec K) : ThreadSpec K := { t with leadIn := 0, leadOut := 0 }

variable {t : ThreadSpec K}

/-! ## The number of steps -/

variable [IsStrictOrderedRing K]

private theorem leadInCount_le_one (hin : t.leadIn < 0) (h3 : 3 ≤ t.segments) :
    t.leadInCount ≤ 1 := by
  have hsegments : (0 : K) < t.segments := by exact_mod_cast zero_lt_three.trans_le h3
  have hback : t.segments * t.leadIn / 360 < 0 :=
    div_neg_of_neg_of_pos (mul_neg_of_pos_of_neg hsegments hin) (by norm_num)
  have hlt : t.leadInCount < 2 := Scalar.truncate_lt two_pos (by push_cast; linarith)
  omega

/-- There is no step in if the angle goes back by more than one step and less than three. -/
theorem leadInCount_eq_zero_iff :
    t.leadInCount = 0 ↔ -1080 < t.segments * t.leadIn ∧ t.segments * t.leadIn < -360 := by
  rw [leadInCount_eq, Scalar.truncate_eq_zero_iff]
  constructor <;> rintro ⟨hlow, hhigh⟩ <;> constructor <;> linarith

/-- The first crests of a thread with a negative way in are on the wrong side. -/
theorem radius_startShare (h : Thread.Fits t) (hin : t.leadIn < 0) (hcount : t.leadInCount ≠ 0) :
    t.radius t.startShare < t.minor / 2 ∨ t.major / 2 < t.radius t.startShare := by
  have hmono := radius_strictMono h.minor_lt
  have hle := leadInCount_le_one hin h.three_le
  rw [← t.radius_zero, ← t.radius_one]
  by_cases hone : t.leadInCount = 1
  · right
    apply hmono
    rw [startShare_eq, hone, Int.cast_one, div_one]
    exact one_lt_two
  · left
    apply hmono
    rw [startShare_eq]
    exact div_neg_of_pos_of_neg two_pos (by exact_mod_cast (by omega : t.leadInCount < 0))

end ThreadSpec

namespace Thread

open ThreadSpec

variable {t : ThreadSpec K}

theorem checkMeasures_withoutLeads (t : ThreadSpec K) :
    checkMeasures t.withoutLeads = checkMeasures t := rfl

variable [Trig K]

/-- All sections behind the first, full and in their places. -/
def fullRings (t : ThreadSpec K) : List (List (Point3 K)) :=
  (List.range (t.stepCount.toNat - 1)).map fun k ↦
    (t.sectionOf 1).placedAt (Angle.unit ((planned t).angleAt k)) (spread t / t.stepCount * k)

theorem rings_of_nonpos (hin : t.leadIn ≤ 0) (hout : t.leadOut ≤ 0) :
    (planned t).rings
      = (t.sectionOf t.startShare).placedAt (Angle.unit 0) 0 :: fullRings t := by
  rw [rings_planned, fullRings]
  congr 1
  refine List.map_congr_left fun k hk ↦ ?_
  have hlast : k < t.stepCount.toNat := by
    have := List.mem_range.mp hk
    omega
  rw [shareAt_of_nonpos hin hout hlast]

private theorem fullRings_withoutLeads (t : ThreadSpec K) :
    fullRings t.withoutLeads = fullRings t := rfl

/-- Only the first section depends on the way in. -/
private theorem madeShell_of_nonpos (hin : t.leadIn ≤ 0) (hout : t.leadOut ≤ 0) :
    madeShell t = { madeShell t.withoutLeads with
      points := (t.sectionOf t.startShare).placedAt (Angle.unit 0) 0 ++
        (madeShell t.withoutLeads).points.drop 4 } := by
  have hfour : ((t.withoutLeads.sectionOf t.withoutLeads.startShare).placedAt
      (Angle.unit 0) 0).length = 4 := by
    rw [ThreadSection.placedAt, List.length_map]
    rfl
  have hdrop : (madeShell t.withoutLeads).points.drop 4 = (fullRings t).flatten := by
    rw [madeShell, rings_of_nonpos (t := t.withoutLeads) le_rfl le_rfl, fullRings_withoutLeads,
      List.flatten_cons, List.drop_left' hfour]
  rw [hdrop, madeShell, rings_of_nonpos hin hout]
  rfl

variable [IsStrictOrderedRing K]

theorem shell_withoutLeads (t : ThreadSpec K) :
    shell t.withoutLeads = checkMeasures t >>= fun _ ↦ .ok (madeShell t.withoutLeads) := by
  have hcount : t.withoutLeads.leadInCount ≠ 0 := by
    rw [leadInCount_of_eq_zero rfl]
    exact two_ne_zero
  rw [shell_eq, if_neg hcount, checkMeasures_withoutLeads]

/-- An angle of zero is no way in, and so is any angle for the way out that is not positive. -/
theorem shell_of_leadIn_eq_zero (hin : t.leadIn = 0) (hout : t.leadOut ≤ 0) :
    shell t = shell t.withoutLeads := by
  have hcount : t.leadInCount = t.withoutLeads.leadInCount := by
    rw [leadInCount_of_eq_zero hin, leadInCount_of_eq_zero rfl]
  have hstart : t.startShare = t.withoutLeads.startShare := by
    rw [startShare_of_eq_zero hin, startShare_of_eq_zero rfl]
  have hmade : madeShell t = madeShell t.withoutLeads := by
    rw [madeShell, madeShell, rings_of_nonpos hin.le hout,
      rings_of_nonpos (t := t.withoutLeads) le_rfl le_rfl, hstart]
    rfl
  rw [shell_eq, shell_eq, hcount, hmade, checkMeasures_withoutLeads]

private theorem shell_eq_error_of_withoutLeads {fault : Fault K}
    (h : shell t.withoutLeads = .error fault) : shell t = .error fault := by
  rw [shell_withoutLeads] at h
  rw [shell_eq]
  cases hcheck : checkMeasures t with
  | error cause =>
    rw [hcheck] at h
    exact h
  | ok _ =>
    rw [hcheck] at h
    cases h

/-- **What a way in over a negative angle does.** What is refused without it is refused with it, for
the same cause. But what is made without it is refused if the angle leaves no step to divide by, and
else it is made with another first section, the crests of which are not between the minor and the
major diameter. An angle of zero does nothing, and nothing depends on the way out. -/
theorem shell_of_nonpos (hin : t.leadIn ≤ 0) (hout : t.leadOut ≤ 0) :
    (t.leadIn = 0 → shell t = shell t.withoutLeads) ∧
      (∀ fault, shell t.withoutLeads = .error fault → shell t = .error fault) ∧
      ∀ p, t.leadIn < 0 → shell t.withoutLeads = .ok p →
        if -1080 < t.segments * t.leadIn ∧ t.segments * t.leadIn < -360 then
          shell t = .error .divisionByZero
        else
          shell t = .ok { p with points :=
            (t.sectionOf t.startShare).placedAt (Angle.unit 0) 0 ++ p.points.drop 4 } ∧
          (t.radius t.startShare < t.minor / 2 ∨ t.major / 2 < t.radius t.startShare) := by
  refine ⟨fun hzero ↦ shell_of_leadIn_eq_zero hzero hout,
    fun fault ↦ shell_eq_error_of_withoutLeads, fun p hneg hp ↦ ?_⟩
  obtain ⟨hwithout, -, rfl⟩ := (shell_eq_ok_iff t.withoutLeads).mp hp
  have hcheck : checkMeasures t = .ok () := (checkMeasures_eq_ok_iff t.withoutLeads).mpr hwithout
  have hfits : Fits t := (checkMeasures_eq_ok_iff t).mp hcheck
  rw [shell_eq, hcheck, ← madeShell_of_nonpos hin hout]
  split
  next hnone => exact if_pos (leadInCount_eq_zero_iff.mpr hnone)
  next hsome =>
    have hcount := mt leadInCount_eq_zero_iff.mp hsome
    exact ⟨if_neg hcount, radius_startShare hfits hneg hcount⟩

/-- A thread of five sections that runs in over any angle. -/
def leadingThread (leadIn : ℚ) : ThreadSpec ℚ := ⟨2, 3, 1, 2, 4, leadIn, -90, false⟩

private theorem checkMeasures_leadingThread (leadIn : ℚ) :
    checkMeasures (leadingThread leadIn) = .ok () :=
  (checkMeasures_eq_ok_iff (leadingThread 0)).mpr
    ⟨by decide, by decide, by decide, by decide +kernel⟩

open scoped QuarterTurn in
/-- A third of a step back is still a step in, and two steps back are none. -/
theorem shell_of_nonpos_leadingThread :
    (∃ p q, shell (leadingThread (-30)).withoutLeads = .ok p ∧ shell (leadingThread (-30)) = .ok q ∧
      q.points.drop 4 = p.points.drop 4) ∧
      shell (leadingThread (-180)) = .error .divisionByZero := by
  have hmade (leadIn : ℚ) : shell (leadingThread leadIn).withoutLeads
      = .ok (madeShell (leadingThread leadIn).withoutLeads) := by
    rw [shell_withoutLeads, checkMeasures_leadingThread]
    rfl
  obtain ⟨-, -, hstep⟩ := shell_of_nonpos (t := leadingThread (-30)) (by decide) (by decide)
  obtain ⟨-, -, hnone⟩ := shell_of_nonpos (t := leadingThread (-180)) (by decide) (by decide)
  have hstep := hstep _ (by decide) (hmade (-30))
  have hnone := hnone _ (by decide) (hmade (-180))
  rw [if_neg (by decide +kernel)] at hstep
  rw [if_pos (by decide +kernel)] at hnone
  exact ⟨⟨_, _, hmade (-30), hstep.1, rfl⟩, hnone⟩

open scoped QuarterTurn in
/-- Without a way in the thread stays within its major diameter. With one of half a turn back it is
not made, and with one of a twelfth of a turn back it reaches farther. -/
theorem exists_shell_of_negative :
    (∃ p, shell (leadingThread 0) = .ok p ∧
      ∀ v ∈ p.points, v.x * v.x + v.y * v.y ≤ 3 / 2 * (3 / 2)) ∧
      shell (leadingThread (-180)) = .error .divisionByZero ∧
      ∃ q, shell (leadingThread (-30)) = .ok q ∧
        ∃ v ∈ q.points, 3 / 2 * (3 / 2) < v.x * v.x + v.y * v.y := by
  have hmade {leadIn : ℚ} (hcount : (leadingThread leadIn).leadInCount ≠ 0) :
      shell (leadingThread leadIn) = .ok (madeShell (leadingThread leadIn)) := by
    rw [shell_eq, checkMeasures_leadingThread]
    exact if_neg hcount
  refine ⟨⟨_, hmade (by decide +kernel), by decide +kernel⟩, ?_,
    _, hmade (by decide +kernel), by decide +kernel⟩
  rw [shell_eq, checkMeasures_leadingThread]
  exact if_pos (by decide +kernel)

end Thread

end SolidModel
