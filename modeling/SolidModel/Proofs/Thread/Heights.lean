import Mathlib
import SolidModel.Proofs.Plane.RationalTurn
import SolidModel.Proofs.Thread.Measures

/-!
# How high the shell of a thread is

The sections of a thread climb in equal steps from height zero on, and the second of them is no
higher than the first. So the last one stands two steps below the end of the spread. The spread
leaves 0.7 of the pitch to it, but a section is as high as 0.75 of the pitch: the shell ends below
the length of the thread only if two steps make up for the difference, a twentieth of the pitch.

With fewer than forty segments per turn a step is high enough for that, and with sixty or more it
never is.
-/

namespace SolidModel

variable {K : Type} [Field K] [LinearOrder K] [FloorRing K]

namespace ThreadSpec

variable {t : ThreadSpec K}

private theorem z_of_mem_placedAt [IsStrictOrderedRing K] {share z : K} {d : Point2 K}
    {v : Point3 K} (hpitch : 0 < t.pitch) (hv : v ∈ (t.sectionOf share).placedAt d z) :
    z ≤ v.z ∧ v.z ≤ z + 3 / 4 * t.pitch := by
  simp only [placedAt_sectionOf, List.mem_cons, List.not_mem_nil, or_false] at hv
  rcases hv with rfl | rfl | rfl | rfl <;> constructor <;> simp only <;> linarith

private theorem exists_mem_placedAt (share z : K) (d : Point2 K) :
    ∃ v ∈ (t.sectionOf share).placedAt d z, v.z = z + 3 / 4 * t.pitch := by
  rw [placedAt_sectionOf]
  exact ⟨_, List.mem_cons_self, rfl⟩

/-- The height of one step. -/
def rise (t : ThreadSpec K) : K := Thread.spread t / t.stepCount

/-- Where the last section ends. -/
def top (t : ThreadSpec K) : K := t.length + t.pitch / 20.0 - 2.0 * t.rise

theorem top_eq (t : ThreadSpec K) : t.top = t.length + t.pitch / 20 - 2 * t.rise := by
  norm_num [top]

end ThreadSpec

namespace Thread

open ThreadSpec

variable {t : ThreadSpec K}

theorem rings_eq [Trig K] (t : ThreadSpec K) : (planned t).rings =
    (t.sectionOf t.startShare).placedAt (Angle.unit 0) 0 ::
      (List.range (t.stepCount.toNat - 1)).map fun k ↦
        (t.sectionOf (t.shareAt k)).placedAt (Angle.unit ((planned t).angleAt k)) (t.rise * k) :=
  t.rings_planned

/-! ## Steps -/

variable [IsStrictOrderedRing K]

theorem Fits.stepCount_pos (h : Fits t) : (0 : K) < t.stepCount := by
  exact_mod_cast zero_lt_two.trans_le h.two_le

theorem Fits.spread_pos (h : Fits t) : 0 < spread t := by
  have hsegments : (0 : K) < t.segments := by
    exact_mod_cast zero_lt_three.trans_le h.three_le
  have hsteps := Scalar.pos_of_one_le_truncate (one_le_two.trans h.two_le)
  exact (div_pos_iff_of_pos_right h.pitch_pos).mp (pos_of_mul_pos_left hsteps hsegments.le)

theorem Fits.rise_pos (h : Fits t) :
    0 < t.rise := div_pos h.spread_pos h.stepCount_pos

/-- As many steps as fit, and no more. -/
theorem Fits.stepCount_bounds (h : Fits t) :
    t.stepCount * t.pitch ≤ spread t * t.segments ∧
      spread t * t.segments < (t.stepCount + 1) * t.pitch := by
  have hpos := Scalar.pos_of_one_le_truncate (one_le_two.trans h.two_le)
  have hfloor : t.stepCount = ⌊spread t / t.pitch * t.segments⌋ :=
    Scalar.truncate_eq_floor hpos.le
  have heq : spread t / t.pitch * t.segments = spread t * t.segments / t.pitch :=
    div_mul_eq_mul_div _ _ _
  have hle := Int.floor_le (spread t / t.pitch * t.segments)
  have hlt := Int.lt_floor_add_one (spread t / t.pitch * t.segments)
  rw [← hfloor, heq] at hle hlt
  exact ⟨(le_div_iff₀ h.pitch_pos).mp hle, (div_lt_iff₀ h.pitch_pos).mp hlt⟩

theorem Fits.rise_mul_stepCount (h : Fits t) :
    t.rise * t.stepCount = spread t :=
  div_mul_cancel₀ _ h.stepCount_pos.ne'

/-- As the number of steps is rounded down, a turn climbs at least the pitch. -/
theorem Fits.pitch_le_turn (h : Fits t) :
    t.pitch ≤ t.rise * t.segments := by
  have hcount := h.stepCount_bounds.1
  rw [← h.rise_mul_stepCount, mul_right_comm, mul_comm] at hcount
  exact le_of_mul_le_mul_right hcount h.stepCount_pos

/-- As not one more step would have fitted, a turn climbs less than the pitch in the ratio of one more
step. -/
theorem Fits.turn_lt_mul (h : Fits t) :
    t.rise * t.segments < t.pitch * ((t.stepCount + 1) / t.stepCount) := by
  have hcount := h.stepCount_bounds.2
  rw [← h.rise_mul_stepCount, mul_right_comm] at hcount
  rwa [mul_div_assoc', lt_div_iff₀ h.stepCount_pos, mul_comm t.pitch]

theorem Fits.turn_lt (h : Fits t) :
    t.rise * t.segments < 3 / 2 * t.pitch := by
  have htwo : (2 : K) ≤ t.stepCount := by exact_mod_cast h.two_le
  have hratio : (t.stepCount + 1 : K) / t.stepCount ≤ 3 / 2 := by
    rw [div_le_iff₀ h.stepCount_pos]
    linarith
  calc t.rise * t.segments < t.pitch * ((t.stepCount + 1) / t.stepCount) := h.turn_lt_mul
    _ ≤ t.pitch * (3 / 2) := mul_le_mul_of_nonneg_left hratio h.pitch_pos.le
    _ = 3 / 2 * t.pitch := mul_comm _ _

theorem Fits.rise_mul_last (h : Fits t) :
    t.rise * (t.stepCount.toNat - 2 : ℕ) + 3 / 4 * t.pitch = t.top := by
  have htwo := h.two_le
  have hlast : ((t.stepCount.toNat - 2 : ℕ) : K) = t.stepCount - 2 := by
    rw [Nat.cast_sub (by omega), Scalar.cast_toNat (one_le_two.trans h.two_le), Nat.cast_two]
  have hrise := h.rise_mul_stepCount
  have hspread : spread t = t.length - 7 / 10 * t.pitch := by
    rw [spread]
    norm_num
  rw [hlast, mul_sub, hrise, hspread, top_eq]
  ring

theorem Fits.rise_mul_bounds (h : Fits t) {k : ℕ} (hk : k ≤ t.stepCount.toNat - 2) :
    0 ≤ t.rise * k ∧ t.rise * k + 3 / 4 * t.pitch ≤ t.top := by
  have hrise := h.rise_pos.le
  have hle : t.rise * k ≤ t.rise * (t.stepCount.toNat - 2 : ℕ) :=
    mul_le_mul_of_nonneg_left (Nat.cast_le.mpr hk) hrise
  rw [← h.rise_mul_last]
  exact ⟨mul_nonneg hrise k.cast_nonneg, by gcongr⟩

/-! ## The top -/

/-- The top is below the length if two steps are higher than a twentieth of the pitch. -/
private theorem top_lt_length_iff : t.top < t.length ↔ t.pitch < 40 * t.rise := by
  rw [top_eq]
  constructor <;> intro h <;> linarith

private theorem length_lt_top_iff : t.length < t.top ↔ 40 * t.rise < t.pitch := by
  rw [top_eq]
  constructor <;> intro h <;> linarith

/-- With fewer than forty segments to a turn, a step is high enough. -/
theorem Fits.top_lt_length (h : Fits t) (hsegments : t.segments < 40) :
    t.top < t.length := by
  have hfew : (t.segments : K) < 40 := by exact_mod_cast hsegments
  rw [top_lt_length_iff]
  calc t.pitch ≤ t.rise * t.segments := h.pitch_le_turn
    _ < t.rise * 40 := mul_lt_mul_of_pos_left hfew h.rise_pos
    _ = 40 * t.rise := mul_comm _ _

theorem Fits.length_lt_top (h : Fits t) (hsegments : 60 ≤ t.segments) :
    t.length < t.top := by
  have hmany : (60 : K) ≤ t.segments := by exact_mod_cast hsegments
  have hturn : t.rise * 60 < 3 / 2 * t.pitch :=
    (mul_le_mul_of_nonneg_left hmany h.rise_pos.le).trans_lt h.turn_lt
  rw [length_lt_top_iff]
  linarith

variable [Trig K]

theorem Fits.z_of_mem (h : Fits t) {v : Point3 K} (hv : v ∈ (madeShell t).points) :
    0 ≤ v.z ∧ v.z ≤ t.top := by
  rw [madeShell, rings_eq, List.flatten_cons, List.mem_append, List.mem_flatten] at hv
  rcases hv with hv | ⟨ring, hring, hv⟩
  · have hz := z_of_mem_placedAt h.pitch_pos hv
    have hfirst := h.rise_mul_bounds (Nat.zero_le _)
    rw [Nat.cast_zero, mul_zero] at hfirst
    exact ⟨hz.1, hz.2.trans hfirst.2⟩
  · obtain ⟨k, hk, rfl⟩ := List.mem_map.mp hring
    have hz := z_of_mem_placedAt h.pitch_pos hv
    have hlast : k ≤ t.stepCount.toNat - 2 := by
      have := List.mem_range.mp hk
      omega
    have hplace := h.rise_mul_bounds hlast
    exact ⟨hplace.1.trans hz.1, hz.2.trans hplace.2⟩

theorem Fits.exists_mem_top (h : Fits t) : ∃ v ∈
    (madeShell t).points, v.z = t.top := by
  have htwo := h.two_le
  obtain ⟨v, hv, hz⟩ := exists_mem_placedAt (t := t) (t.shareAt (t.stepCount.toNat - 2))
    (t.rise * (t.stepCount.toNat - 2 : ℕ))
    (Angle.unit ((planned t).angleAt (t.stepCount.toNat - 2)))
  refine ⟨v, ?_, hz.trans h.rise_mul_last⟩
  rw [madeShell, rings_eq, List.flatten_cons, List.mem_append, List.mem_flatten]
  exact .inr ⟨_, List.mem_map_of_mem (List.mem_range.mpr (by omega)), hv⟩

/-- **How high the shell of a thread is.** No point is below zero, and the highest one is above the
length by a twentieth of the pitch, less two steps. So the shell stays below the length with fewer
than forty segments to a turn, and reaches above it with sixty or more. -/
theorem heights_of_shell {p : Polyhedron K} (h : shell t = .ok p) :
    (∀ v ∈ p.points, 0 ≤ v.z) ∧
      IsGreatest {z | ∃ v ∈ p.points, v.z = z}
        (t.length + t.pitch / 20 - 2 * (spread t / t.stepCount)) ∧
      (t.segments < 40 → ∀ v ∈ p.points, v.z < t.length) ∧
      (60 ≤ t.segments → ∃ v ∈ p.points, t.length < v.z) := by
  obtain ⟨hfits, -, rfl⟩ := (shell_eq_ok_iff t).mp h
  obtain ⟨v, hv, hz⟩ := hfits.exists_mem_top
  have htop : t.length + t.pitch / 20 - 2 * (spread t / t.stepCount) = t.top := t.top_eq.symm
  rw [htop]
  refine ⟨fun v hv ↦ (hfits.z_of_mem hv).1, ⟨⟨v, hv, hz⟩, ?_⟩, ?_, ?_⟩
  · rintro z ⟨v, hv, rfl⟩
    exact (hfits.z_of_mem hv).2
  · intro hfew v hv
    exact (hfits.z_of_mem hv).2.trans_lt (hfits.top_lt_length hfew)
  · intro hmany
    exact ⟨v, hv, hz ▸ hfits.length_lt_top hmany⟩

/-- A thread of pitch 1 and length 10 with as many segments to a turn. -/
def turnsOf (segments : ℤ) : ThreadSpec ℚ := ⟨8, 10, 1, 10, segments, 0, 0, false⟩

open scoped RationalTurn in
/-- With 32 segments to a turn it ends below its length. -/
theorem heights_of_shell_turnsOf :
    ∃ p, shell (turnsOf 32) = .ok p ∧ ∀ v ∈ p.points, 0 ≤ v.z ∧ v.z < 10 := by
  have hfits : Fits (turnsOf 32) := ⟨by decide, by decide, by decide, by decide +kernel⟩
  have hmade := (shell_eq_ok_iff (turnsOf 32)).mpr ⟨hfits, by decide +kernel, rfl⟩
  obtain ⟨hzero, -, hfew, -⟩ := heights_of_shell hmade
  exact ⟨_, hmade, fun v hv ↦ ⟨hzero v hv, hfew (by decide) v hv⟩⟩

open scoped RationalTurn in
/-- With 100 it is higher than it is long. -/
theorem exists_higher_than_length :
    ∃ p, shell (turnsOf 100) = .ok p ∧ ∃ v ∈ p.points, (turnsOf 100).length < v.z := by
  have hfits : Fits (turnsOf 100) := ⟨by decide, by decide, by decide, by decide +kernel⟩
  have hmade := (shell_eq_ok_iff (turnsOf 100)).mpr ⟨hfits, by decide +kernel, rfl⟩
  obtain ⟨v, hv, hz⟩ := hfits.exists_mem_top
  exact ⟨_, hmade, v, hv, hz ▸ hfits.length_lt_top (by decide)⟩

end Thread

end SolidModel
