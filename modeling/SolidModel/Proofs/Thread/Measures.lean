import Mathlib
import SolidModel.Proofs.Space.Turns
import SolidModel.Proofs.Space.VectorArea
import SolidModel.Proofs.Thread.Sections

/-!
# What the measures of a thread come to

With exact numbers every section of a thread is the full one with its crests moved in, to a share of
the depth between the roots and the full crests. All sections between which the crests of a thread
are stepped are of this kind, and stepping from one to another steps from share to share, see
`withCrest_stepped`. So a thread is known by the shares of its sections, and these are numbers.

No angle is infinite and no number fails to have an integer part. A shell is thus refused for its
measures, by checks in which its way in and its way out have no part, or because the way in is
divided into no steps, and for nothing else: see `shell_eq`.
-/

namespace SolidModel

open Outcome

variable {K : Type} [Field K] [LinearOrder K] [FloorRing K]

private theorem Scalar.toInt_eq_ok (x : K) : toInt x = .ok (truncate x) := by
  simp [toInt, isNaN, isInfinite_eq_false]

theorem Scalar.two_eq : (2.0 : K) = 2 := by
  norm_num

theorem Scalar.truncate_eq_floor {x : K} (hx : 0 ≤ x) : truncate x = ⌊x⌋ := if_pos hx

theorem Scalar.truncate_eq_ceil {x : K} (hx : x < 0) : truncate x = ⌈x⌉ := if_neg hx.not_ge

theorem Scalar.truncate_lt {x : K} {n : ℤ} (hn : 0 < n) (hx : x < n) : truncate x < n := by
  by_cases h0 : 0 ≤ x
  · rw [truncate_eq_floor h0]
    exact Int.floor_lt.mpr hx
  · rw [truncate_eq_ceil (not_le.mp h0)]
    exact (Int.ceil_le.mpr (by exact_mod_cast (not_le.mp h0).le)).trans_lt hn

theorem Scalar.truncate_eq_zero_iff [IsStrictOrderedRing K] {x : K} :
    truncate x = 0 ↔ -1 < x ∧ x < 1 := by
  by_cases h0 : 0 ≤ x
  · rw [truncate_eq_floor h0, Int.floor_eq_zero_iff]
    exact ⟨fun h ↦ ⟨neg_one_lt_zero.trans_le h0, h.2⟩, fun h ↦ ⟨h0, h.2⟩⟩
  · have hneg := not_le.mp h0
    rw [truncate_eq_ceil hneg, Int.ceil_eq_zero_iff]
    exact ⟨fun h ↦ ⟨h.1, hneg.trans one_pos⟩, fun h ↦ ⟨h.1, hneg.le⟩⟩

theorem Scalar.pos_of_one_le_truncate {x : K} (h : 1 ≤ truncate x) : 0 < x := by
  by_contra hx
  have hlt : truncate x < 1 := truncate_lt one_pos ((not_lt.mp hx).trans_lt (by simp))
  omega

namespace ThreadSpec

variable (t : ThreadSpec K)

/-! ## Sections by their share of the depth -/

/-- How far the full crests are from the roots. -/
def depth : K := t.major / 2.0 - t.minor / 2.0

/-- How far crests at a share of the depth are from the axis. -/
def radius (share : K) : K := t.minor / 2.0 + t.depth * share

/-- The section with its crests at a share of the depth. -/
def sectionOf (share : K) : ThreadSection K where
  rootTop := ⟨t.minor / 2.0, 0.0, 3.0 / 4.0 * t.pitch⟩
  crestTop := ⟨t.radius share, 0.0, 7.0 / 16.0 * t.pitch⟩
  rootBottom := ⟨t.minor / 2.0, 0.0, 0.0⟩
  crestBottom := ⟨t.radius share, 0.0, 5.0 / 16.0 * t.pitch⟩

theorem depth_eq : t.depth = t.major / 2 - t.minor / 2 := by
  rw [depth, Scalar.two_eq]

theorem radius_eq (share : K) : t.radius share = t.minor / 2 + t.depth * share := by
  rw [radius, Scalar.two_eq]

theorem radius_zero : t.radius 0 = t.minor / 2 := by
  rw [radius_eq, mul_zero, add_zero]

theorem radius_one : t.radius 1 = t.major / 2 := by
  rw [radius_eq, depth_eq, mul_one, add_sub_cancel]

theorem radius_strictMono [IsStrictOrderedRing K] {t : ThreadSpec K} (h : t.minor < t.major) :
    StrictMono t.radius := by
  intro a b hab
  have hdepth : 0 < t.depth := by
    rw [depth_eq]
    exact sub_pos.mpr (div_lt_div_of_pos_right h two_pos)
  rw [radius, radius]
  gcongr

theorem full_eq : ThreadSection.full t.minor t.major t.pitch = t.sectionOf 1 := by
  rw [ThreadSection.full, sectionOf, radius_one, Scalar.two_eq]

theorem flushTop_eq : ThreadSection.flushTop t.minor t.pitch = (t.sectionOf 0).crestTop := by
  rw [ThreadSection.flushTop, sectionOf, radius_zero, Scalar.two_eq]

theorem flushBottom_eq :
    ThreadSection.flushBottom t.minor t.pitch = (t.sectionOf 0).crestBottom := by
  rw [ThreadSection.flushBottom, sectionOf, radius_zero, Scalar.two_eq]

theorem placedAt_sectionOf (share : K) (d : Point2 K) (z : K) :
    (t.sectionOf share).placedAt d z =
      [⟨d.x * (t.minor / 2), d.y * (t.minor / 2), z + 3 / 4 * t.pitch⟩,
        ⟨d.x * t.radius share, d.y * t.radius share, z + 7 / 16 * t.pitch⟩,
        ⟨d.x * (t.minor / 2), d.y * (t.minor / 2), z⟩,
        ⟨d.x * t.radius share, d.y * t.radius share, z + 5 / 16 * t.pitch⟩] := by
  norm_num [ThreadSection.placedAt, ThreadSection.points, sectionOf]

theorem withCrest_stepped (a b c : K) (steps step : ℤ) :
    (t.sectionOf c).withCrest
        (stepped (t.sectionOf a).crestTop (t.sectionOf b).crestTop steps step)
        (stepped (t.sectionOf a).crestBottom (t.sectionOf b).crestBottom steps step)
      = t.sectionOf (a + (b - a) / steps * step) := by
  have hradius : t.radius (a + (b - a) / steps * step)
      = t.radius a + (t.radius b - t.radius a) / steps * step := by
    simp only [radius_eq]
    ring
  simp only [ThreadSection.withCrest, sectionOf, stepped, hradius, ThreadSection.mk.injEq,
    Point3.ext_iff', Point3.add_x, Point3.add_y, Point3.add_z, Point3.mul_x, Point3.mul_y,
    Point3.mul_z, Point3.div_x, Point3.div_y, Point3.div_z, Point3.sub_x, Point3.sub_y,
    Point3.sub_z, Scalar.ofInt_eq, sub_self, zero_div, zero_mul, add_zero, and_self]

/-! ## Numbers of steps -/

/-- How many sections there are. -/
def stepCount : ℤ := Scalar.truncate (Thread.spread t / t.pitch * t.segments)

/-- Over how many steps the thread runs in. -/
def leadInCount : ℤ := Scalar.truncate (t.segments * t.leadIn / 360.0 + 2.0)

/-- Over how many steps the thread runs out. -/
def leadOutCount : ℤ := Scalar.truncate (t.segments * t.leadOut / 360.0)

/-- The share with which the thread begins. -/
def startShare : K := 2.0 / t.leadInCount

/-- The share that the way out leads to. -/
def endShare : K := if 0 < t.leadOutCount then 1 / t.leadOutCount else 1

theorem leadInCount_eq : t.leadInCount = Scalar.truncate (t.segments * t.leadIn / 360 + 2) := by
  rw [leadInCount, Scalar.fullTurn_eq, Scalar.two_eq]

theorem leadOutCount_eq : t.leadOutCount = Scalar.truncate (t.segments * t.leadOut / 360) := by
  rw [leadOutCount, Scalar.fullTurn_eq]

theorem startShare_eq : t.startShare = 2 / t.leadInCount := by
  rw [startShare, Scalar.two_eq]

theorem start_eq : (t.sectionOf 1).withCrest
      (stepped (t.sectionOf 0).crestTop (t.sectionOf 1).crestTop t.leadInCount 2)
      (stepped (t.sectionOf 0).crestBottom (t.sectionOf 1).crestBottom t.leadInCount 2)
    = t.sectionOf t.startShare := by
  have hshare : 0 + (1 - 0) / (t.leadInCount : K) * (2 : ℤ) = t.startShare := by
    rw [startShare_eq, Int.cast_ofNat]
    ring
  rw [withCrest_stepped, hshare]

/-- What the way out leads to, as a section. -/
theorem end_eq : (if 0 < t.leadOutCount then (t.sectionOf 1).withCrest
      (stepped (t.sectionOf 0).crestTop (t.sectionOf 1).crestTop t.leadOutCount 1)
      (stepped (t.sectionOf 0).crestBottom (t.sectionOf 1).crestBottom t.leadOutCount 1)
    else t.sectionOf 1) = t.sectionOf t.endShare := by
  rw [withCrest_stepped, endShare, apply_ite t.sectionOf]
  simp

end ThreadSpec

namespace Thread

variable (t : ThreadSpec K)

/-- What has to hold of the measures, however the thread runs in and out. -/
structure Fits : Prop where
  pitch_pos : 0 < t.pitch
  minor_lt : t.minor < t.major
  three_le : 3 ≤ t.segments
  two_le : 2 ≤ t.stepCount

/-- Looks whether the measures fit. -/
def checkMeasures : Except (Fault K) Unit := do
  if t.pitch ≤ 0 then throw (.threadPitch t.pitch)
  if t.major ≤ t.minor then throw (.threadDiameters t.major t.minor)
  if t.segments < 3 then throw (.threadSegments t.segments)
  if t.stepCount < 2 then throw (.threadLength t.length t.pitch)

theorem checkMeasures_eq_ok_iff : checkMeasures t = .ok () ↔ Fits t := by
  have hlast : (if t.stepCount < 2 then throw (.threadLength t.length t.pitch) else pure () :
      Except (Fault K) Unit) = .ok () ↔ 2 ≤ t.stepCount := by
    split
    next hlt => simp [throw, throwThe, MonadExceptOf.throw, hlt]
    next hle => simp [pure, Except.pure, not_lt.mp hle]
  simp only [checkMeasures, guard_eq_ok_iff, not_le, not_lt, hlast]
  exact ⟨fun ⟨h1, h2, h3, h4⟩ ↦ ⟨h1, h2, h3, h4⟩, fun ⟨h1, h2, h3, h4⟩ ↦ ⟨h1, h2, h3, h4⟩⟩

/-- The plan of a thread whose measures fit. -/
def planned : Plan K where
  leftHand := t.leftHand
  steps := t.stepCount.toNat
  angle := 360.0 / t.segments
  rise := spread t / t.stepCount
  leadsIn := decide (0 < t.leadIn)
  leadsOut := decide (0 < t.leadOut)
  leadInSteps := t.leadInCount
  leadOutSteps := t.leadOutCount
  full := t.sectionOf 1
  start := t.sectionOf t.startShare
  endTop := (t.sectionOf t.endShare).crestTop
  endBottom := (t.sectionOf t.endShare).crestBottom

private theorem plan_of_fits (h : Fits t) : plan t =
    if t.leadInCount = 0 then .error .divisionByZero else .ok (planned t) := by
  have hsteps : Scalar.truncate (spread t / t.pitch * t.segments) = t.stepCount := rfl
  have hin : Scalar.truncate (t.segments * t.leadIn / 360.0 + 2.0) = t.leadInCount := rfl
  have hout : Scalar.truncate (t.segments * t.leadOut / 360.0) = t.leadOutCount := rfl
  have htop := congrArg ThreadSection.crestTop t.end_eq
  have hbottom := congrArg ThreadSection.crestBottom t.end_eq
  rw [apply_ite ThreadSection.crestTop] at htop
  rw [apply_ite ThreadSection.crestBottom] at hbottom
  simp only [plan, Scalar.zero_eq, if_neg h.pitch_pos.not_ge, if_neg h.minor_lt.not_ge,
    if_neg h.three_le.not_gt, if_neg h.two_le.not_gt, Scalar.toInt_eq_ok, Scalar.ofInt_eq, hsteps,
    hin, hout, bind, Except.bind, ThreadSpec.full_eq, ThreadSpec.flushTop_eq,
    ThreadSpec.flushBottom_eq, t.start_eq, decide_eq_true_iff, planned, ← htop, ← hbottom]
  rfl

theorem plan_eq : plan t = checkMeasures t >>= fun _ ↦
    if t.leadInCount = 0 then .error .divisionByZero else .ok (planned t) := by
  by_cases hpitch : t.pitch ≤ 0
  · rw [plan, checkMeasures, Scalar.zero_eq, if_pos hpitch, if_pos hpitch]
    rfl
  by_cases hdiameters : t.major ≤ t.minor
  · rw [plan, checkMeasures, Scalar.zero_eq, if_neg hpitch, if_neg hpitch, if_pos hdiameters,
      if_pos hdiameters]
    rfl
  by_cases hsegments : t.segments < 3
  · rw [plan, checkMeasures, Scalar.zero_eq, if_neg hpitch, if_neg hpitch, if_neg hdiameters,
      if_neg hdiameters, if_pos hsegments, if_pos hsegments]
    rfl
  by_cases hsteps : t.stepCount < 2
  · have hcount : Scalar.truncate (spread t / t.pitch * Scalar.ofInt t.segments) = t.stepCount := by
      rw [Scalar.ofInt_eq, ThreadSpec.stepCount]
    simp only [plan, checkMeasures, Scalar.zero_eq, if_neg hpitch, if_neg hdiameters,
      if_neg hsegments, Scalar.toInt_eq_ok, hcount, bind, Except.bind, if_pos hsteps]
    rfl
  have hfits : Fits t :=
    ⟨not_le.mp hpitch, not_le.mp hdiameters, not_lt.mp hsegments, not_lt.mp hsteps⟩
  rw [plan_of_fits t hfits, (checkMeasures_eq_ok_iff t).mpr hfits]
  rfl

/-! ## Points -/

variable [Trig K]

/-- The points of every section of a plan in its place. -/
def Plan.rings (p : Plan K) : List (List (Point3 K)) :=
  p.start.placedAt (Angle.unit 0) 0 ::
    (List.range (p.steps - 1)).map fun k ↦
      (p.sectionAt k).placedAt (Angle.unit (p.angleAt k)) (p.rise * k)

private theorem placed_eq_ok (s : ThreadSection K) (degrees z : K) :
    s.placed degrees z = .ok (s.placedAt (Angle.unit degrees) z) := by
  rw [ThreadSection.placed, Angle.direction_eq_ok]
  rfl

private theorem Plan.points_eq_ok (p : Plan K) : p.points = .ok p.rings.flatten := by
  have hlater := Outcome.mapM_eq_ok (l := p.laterSections.zipIdx)
    fun a _ ↦ placed_eq_ok a.1 (p.angleAt a.2) (p.heightAt a.2)
  rw [zipIdx_laterSections, List.map_map] at hlater
  rw [points, placed_eq_ok, zipIdx_laterSections]
  simp only [bind, Except.bind, hlater]
  simp only [rings, heightAt, Scalar.ofNat_eq, Scalar.zero_eq]
  rfl

/-- The shell of a thread whose measures fit. -/
def madeShell : Polyhedron K where
  points := (planned t).rings.flatten
  faces := faces t.leftHand t.stepCount.toNat
  procedure := some (.thread t.minor t.major t.pitch t.length)

/-- A shell is refused for its measures, because it runs in over no steps, or not at all. -/
theorem shell_eq : shell t = checkMeasures t >>= fun _ ↦
    if t.leadInCount = 0 then .error .divisionByZero else .ok (madeShell t) := by
  rw [shell, plan_eq]
  cases checkMeasures t with
  | error fault => rfl
  | ok _ =>
    by_cases hcount : t.leadInCount = 0
    · simp only [bind, Except.bind, if_pos hcount]
    · simp only [bind, Except.bind, if_neg hcount, Plan.points_eq_ok]
      rfl

theorem shell_eq_ok_iff {p : Polyhedron K} :
    shell t = .ok p ↔ Fits t ∧ t.leadInCount ≠ 0 ∧ madeShell t = p := by
  rw [shell_eq, bind_eq_ok_iff, ← checkMeasures_eq_ok_iff]
  constructor
  · rintro ⟨⟨⟩, hfits, h⟩
    by_cases hcount : t.leadInCount = 0
    · rw [if_pos hcount] at h
      cases h
    · rw [if_neg hcount] at h
      exact ⟨hfits, hcount, Except.ok.inj h⟩
  · rintro ⟨hfits, hcount, rfl⟩
    exact ⟨(), hfits, if_neg hcount⟩

end Thread

namespace ThreadSpec

/-! ## Shares along a thread -/

open Thread

variable (t : ThreadSpec K)

/-- The share behind the first section and `j` others on the way in. -/
def shareIn (j : ℕ) : K :=
  if j = 0 then t.startShare else t.startShare + (1 - t.startShare) / t.leadInCount * (3 + j : ℕ)

/-- The share behind `j` sections on the way out. -/
def shareOut (j : ℕ) : K := 1 + (t.endShare - 1) / t.leadOutCount * j

/-- The share behind the first section and `k` others. -/
def shareAt (k : ℕ) : K :=
  if k < (planned t).stepsIn then t.shareIn k else t.shareOut (k - (planned t).stepsBeforeOut)

theorem sectionIn_planned (j : ℕ) : (planned t).sectionIn j = t.sectionOf (t.shareIn j) := by
  rw [Plan.sectionIn, shareIn]
  by_cases hj : j = 0
  · rw [if_pos hj, if_pos hj]
    rfl
  · rw [if_neg hj, if_neg hj]
    exact (t.withCrest_stepped _ _ _ _ _).trans (by rw [Int.cast_natCast]; rfl)

theorem sectionOut_planned (j : ℕ) : (planned t).sectionOut j = t.sectionOf (t.shareOut j) := by
  rw [Plan.sectionOut, shareOut]
  by_cases hj : j = 0
  · rw [if_pos hj, hj, Nat.cast_zero, mul_zero, add_zero]
    rfl
  · rw [if_neg hj]
    exact (t.withCrest_stepped _ _ _ _ _).trans (by rw [Int.cast_natCast]; rfl)

theorem sectionAt_planned (k : ℕ) : (planned t).sectionAt k = t.sectionOf (t.shareAt k) := by
  rw [Plan.sectionAt, shareAt, sectionIn_planned, sectionOut_planned, apply_ite t.sectionOf]

variable {t}

theorem shareOut_zero : t.shareOut 0 = 1 := by
  rw [shareOut, Nat.cast_zero, mul_zero, add_zero]

theorem leadInCount_of_eq_zero [IsStrictOrderedRing K] (hin : t.leadIn = 0) :
    t.leadInCount = 2 := by
  rw [leadInCount_eq, hin, mul_zero, zero_div, zero_add, Scalar.truncate_eq_floor zero_le_two]
  exact Int.floor_ofNat 2

theorem startShare_of_eq_zero [IsStrictOrderedRing K] (hin : t.leadIn = 0) : t.startShare = 1 := by
  rw [startShare_eq, leadInCount_of_eq_zero hin, Int.cast_ofNat, div_self two_ne_zero]

/-- All sections but the first are full if there is neither a way in nor a way out. -/
theorem shareAt_of_nonpos (hin : t.leadIn ≤ 0) (hout : t.leadOut ≤ 0) {k : ℕ}
    (hk : k < t.stepCount.toNat) : t.shareAt k = 1 := by
  have hsteps : (planned t).stepsIn = 0 := by simp [Plan.stepsIn, planned, hin.not_gt]
  have hbefore : (planned t).stepsBeforeOut = t.stepCount.toNat := by
    simp [Plan.stepsBeforeOut, planned, hout.not_gt]
  rw [shareAt, hsteps, if_neg k.not_lt_zero, hbefore, Nat.sub_eq_zero_of_le hk.le, shareOut_zero]

variable (t) [Trig K]

/-- The points of a thread are those of sections that are known by their shares. -/
theorem rings_planned : (planned t).rings =
    (t.sectionOf t.startShare).placedAt (Angle.unit 0) 0 ::
      (List.range (t.stepCount.toNat - 1)).map fun k ↦
        (t.sectionOf (t.shareAt k)).placedAt (Angle.unit ((planned t).angleAt k))
          (spread t / t.stepCount * k) := by
  simp only [Plan.rings, sectionAt_planned]
  rfl

end ThreadSpec

end SolidModel
