import Mathlib
import SolidModel.Proofs.Loop.Links
import SolidModel.Proofs.Plane.QuarterTurn
import SolidModel.Proofs.Surface.Sweep

/-!
# Closed sweeps start anywhere

Around a closed path the first and the last point are no exceptions. Its stations are read off the
path and its rotations by one place, and what is checked are all pairs of neighbours around it. So a
rotated path has the same stations, rotated, and passes the check when the path itself does. Without
a twist the ring of a station does not depend on its number, hence the rings of a rotated path are
the same rings, rotated. The walls look at the numbers of rings and points alone.

None of this depends on how numbers are rounded. What is used of them is that no share of a zero
twist turns anything, for as many shares as the path has points, see `Scalar.HasZeroShares`.
-/

namespace SolidModel

/-- Of so many equal shares of zero, any number together are zero. Rounded numbers obey this too,
for as many parts as they can count. -/
def Scalar.HasZeroShares (K : Type) [Scalar K] (parts : ℕ) : Prop :=
  ∀ k < parts, (0.0 : K) / ofNat parts * ofNat k = 0.0

theorem Scalar.hasZeroShares {K : Type} [Field K] [LinearOrder K] [FloorRing K] (parts : ℕ) :
    HasZeroShares K parts := by
  intro k _
  rw [zero_eq, zero_div, zero_mul]

/-! ## Rotated lists -/

private theorem Outcome.mapM_rotate_eq_ok {ε α β : Type} {l : List α} {f : α → Except ε β}
    {r : List β} (h : l.mapM f = .ok r) (shift : ℕ) :
    (l.rotate shift).mapM f = .ok (r.rotate shift) := by
  rw [mapM_eq_ok_iff_forall₂] at h ⊢
  rw [List.rotate_eq_drop_append_take_mod, List.rotate_eq_drop_append_take_mod, h.length_eq]
  exact List.rel_append (List.forall₂_drop _ h) (List.forall₂_take _ h)

namespace Polyline

variable {α : Type}

/-- Blocks of one length in a row, rotated block by block. -/
private theorem flatten_rotate {blocks : List (List α)} {size : ℕ}
    (h : ∀ b ∈ blocks, b.length = size) (shift : ℕ) :
    (blocks.rotate shift).flatten = blocks.flatten.rotate (shift * size) := by
  induction shift generalizing blocks with
  | zero => rw [Nat.zero_mul, List.rotate_zero, List.rotate_zero]
  | succ shift ih =>
    cases blocks with
    | nil => rw [List.rotate_nil, List.flatten_nil, List.rotate_nil]
    | cons b blocks =>
      obtain ⟨hb, hblocks⟩ := List.forall_mem_cons.mp h
      have hback : ∀ c ∈ blocks ++ [b], c.length = size :=
        List.forall_mem_append.mpr ⟨hblocks, List.forall_mem_singleton.mpr hb⟩
      rw [List.rotate_cons_succ, ih hback, List.flatten_append, List.flatten_singleton,
        ← List.rotate_append_length_eq b, List.rotate_rotate, hb, List.flatten_cons, Nat.succ_mul,
        Nat.add_comm]

private theorem cyclicPairs_eq_concat {a b : α} {l : List α} (h : (a :: l).getLast? = some b) :
    cyclicPairs (a :: l) = (a :: l).zip l ++ [(b, a)] := by
  rw [cyclicPairs_cons, links_concat h, links_eq_zip]

end Polyline

/-! ## What closed sweeps are refused for -/

section Refusals

open Outcome

variable {K : Type} [Scalar K] [Trig K]

theorem Angle.refusedOnlyAs_direction (degrees : K) : RefusedOnlyAs .value (direction degrees) := by
  have happly (f : K → K) : RefusedOnlyAs .value (apply f degrees) := by
    rw [apply]
    split
    · exact refusedOnlyAs_error rfl
    · exact refusedOnlyAs_ok _
  exact (happly _).bind fun c ↦ (happly _).bind fun s ↦ refusedOnlyAs_ok (Point2.mk c s)

theorem VectorOps.refusedOnlyAs_normalized {P : Type} [VectorOps K P] (p : P) :
    RefusedOnlyAs .value (normalized p) := by
  rw [normalized]
  split
  · exact refusedOnlyAs_error rfl
  · exact refusedOnlyAs_ok _

namespace Matrix4

private theorem refusedOnlyAs_axisRotation (axis : Axis) (degrees : K) :
    RefusedOnlyAs .value (axisRotation axis degrees) :=
  .guard rfl ((Angle.refusedOnlyAs_direction _).bind fun _ ↦ refusedOnlyAs_ok _)

private theorem refusedOnlyAs_forward (eye center : Point3 K) :
    RefusedOnlyAs .value (forward eye center) := by
  rw [forward]
  split
  · exact refusedOnlyAs_error rfl
  · exact VectorOps.refusedOnlyAs_normalized _

theorem refusedOnlyAs_placement (eye center up : Point3 K) :
    RefusedOnlyAs .value (placement eye center up) := by
  refine (refusedOnlyAs_forward eye center).bind fun f ↦ ?_
  dsimp only
  split
  · split
    · exact (refusedOnlyAs_axisRotation .x 180.0).bind fun _ ↦ refusedOnlyAs_ok _
    · exact refusedOnlyAs_ok _
  · exact (VectorOps.refusedOnlyAs_normalized _).bind fun _ ↦ refusedOnlyAs_ok _

end Matrix4

namespace Polyhedron

private theorem refusedOnlyAs_ring (s : Station K) (profile : List (Point2 K)) (degrees : K) :
    RefusedOnlyAs .value (s.ring profile degrees) :=
  (Matrix4.refusedOnlyAs_placement s.before s.after _).bind fun _ ↦
    (RefusedOnlyAs.mapM fun _ ↦
      (Angle.refusedOnlyAs_direction degrees).bind fun _ ↦ refusedOnlyAs_ok _).bind fun _ ↦
        refusedOnlyAs_ok _

private theorem refusedOnlyAs_sweptRings (profile : List (Point2 K)) (stations : List (Station K))
    (step : K) : RefusedOnlyAs .value (sweptRings profile stations step) :=
  RefusedOnlyAs.mapM fun e ↦ refusedOnlyAs_ring e.1 profile _

private theorem refusedOnlyAs_checkPath (path : List (Point3 K)) (closed : Bool) :
    RefusedOnlyAs .value (checkPath path closed) := by
  refine .guard rfl ?_
  dsimp only
  split
  · exact refusedOnlyAs_error rfl
  · split
    · split
      · exact refusedOnlyAs_error rfl
      · exact refusedOnlyAs_ok ()
    · exact refusedOnlyAs_ok ()

theorem refusedOnlyAs_closedSweep (profile : List (Point2 K)) (path : List (Point3 K)) (twist : K) :
    RefusedOnlyAs .value (sweep profile path twist true) :=
  .guard rfl ((refusedOnlyAs_checkPath path true).bind fun _ ↦
    (refusedOnlyAs_sweptRings profile _ _).bind fun _ ↦ refusedOnlyAs_ok _)

end Polyhedron

end Refusals

namespace Polyhedron

open Outcome
open Polyline (cyclicPairs)

variable {K : Type}

/-! ## Stations and checks around a path -/

theorem stations_rotate (path : List (Point3 K)) (shift : ℕ) :
    stations (path.rotate shift) true = (stations path true).rotate shift := by
  have hturned (n : ℕ) : (path.rotate shift).rotate n = (path.rotate n).rotate shift := by
    rw [List.rotate_rotate, List.rotate_rotate, Nat.add_comm]
  simp only [stations, if_true, Polyline.rotateRight_one_eq_rotate, Polyline.rotateLeft_eq_rotate,
    List.length_rotate, hturned, List.zip_eq_zipWith]
  rw [List.zipWith_rotate_distrib _ _ _ _ (by simp), List.zipWith_rotate_distrib _ _ _ _ (by simp)]

variable [Scalar K] [Trig K]
variable {profile : List (Point2 K)} {path : List (Point3 K)} {made : Noted (Polyhedron K)}

/-- Of a closed path all pairs of neighbours are checked, the seam like any other. -/
theorem checkPath_closed_eq_ok_iff :
    checkPath path true = .ok ()
      ↔ 3 ≤ path.length ∧ ∀ e ∈ cyclicPairs path, coincide e.1 e.2 = false := by
  simp only [checkPath, guard_eq_ok_iff, if_true, not_lt, Bool.true_and]
  refine and_congr_right fun h3 ↦ ?_
  obtain ⟨a, l, rfl⟩ := List.exists_cons_of_length_pos (l := path) (by omega)
  have hlast := List.getLast?_eq_some_getLast (List.cons_ne_nil a l)
  generalize (a :: l).getLast (List.cons_ne_nil a l) = b at hlast
  rw [Polyline.cyclicPairs_eq_concat hlast, List.forall_mem_append, List.forall_mem_singleton,
    hlast, List.head?_cons, List.tail_cons, ← List.findIdx?_eq_none_iff]
  cases ((a :: l).zip l).findIdx? fun e ↦ coincide e.1 e.2 with
  | some k => simp [bind, Except.bind, throw, throwThe, MonadExceptOf.throw]
  | none =>
    cases hseam : coincide b a <;>
      simp [hseam, pure, Except.pure, throw, throwThe, MonadExceptOf.throw]

theorem checkPath_rotate_eq_ok_iff (shift : ℕ) :
    checkPath (path.rotate shift) true = .ok () ↔ checkPath path true = .ok () := by
  have hrot : path.rotate shift ~r path := List.IsRotated.forall path shift
  simp only [checkPath_closed_eq_ok_iff, List.length_rotate, Polyline.mem_cyclicPairs_iff hrot]

/-! ## Rings without a twist -/

private theorem sweptRings_untwisted (profile : List (Point2 K)) (stations : List (Station K))
    (hshares : Scalar.HasZeroShares K stations.length) :
    sweptRings profile stations (0.0 / Scalar.ofNat stations.length)
      = stations.mapM fun s ↦ s.ring profile 0.0 := by
  have hturn : ∀ e ∈ stations.zipIdx,
      e.1.ring profile (0.0 / Scalar.ofNat stations.length * Scalar.ofNat e.2)
        = e.1.ring profile 0.0 := by
    rintro ⟨s, k⟩ he
    have hk : k < stations.length := by simpa using List.snd_lt_of_mem_zipIdx he
    rw [hshares k hk]
  calc sweptRings profile stations (0.0 / Scalar.ofNat stations.length)
      = stations.zipIdx.mapM fun e ↦ e.1.ring profile 0.0 := mapM_congr hturn
    _ = (stations.zipIdx.map Prod.fst).mapM fun s ↦ s.ring profile 0.0 :=
        (List.mapM_map (f := Prod.fst) (g := fun s : Station K ↦ s.ring profile 0.0)).symm
    _ = stations.mapM fun s ↦ s.ring profile 0.0 := by rw [List.zipIdx_map_fst]

/-! ## Rotated paths -/

private theorem sweep_rotate_eq_ok (hshares : Scalar.HasZeroShares K path.length)
    (h : sweep profile path 0.0 true = .ok made) (shift : ℕ) :
    sweep profile (path.rotate shift) 0.0 true = .ok { made with
      value := { made.value with
        points := made.value.points.rotate (shift * profile.length) } } := by
  obtain ⟨hn, hcheck, rings, hrings, rfl⟩ := sweep_closed_eq_ok_iff.mp h
  have hpath : path ≠ [] :=
    List.length_pos_iff.mp (Nat.zero_lt_of_lt (checkPath_closed_eq_ok_iff.mp hcheck).1)
  have hlengths := length_of_mem_sweptRings hrings
  rw [← length_stations true hpath] at hshares hrings
  have hturned : Scalar.HasZeroShares K (stations (path.rotate shift) true).length := by
    rwa [stations_rotate, List.length_rotate]
  rw [sweptRings_untwisted _ _ hshares] at hrings
  have hrotated := mapM_rotate_eq_ok hrings shift
  rw [← stations_rotate, ← sweptRings_untwisted _ _ hturned,
    length_stations true (mt List.rotate_eq_nil_iff.mp hpath)] at hrotated
  refine sweep_closed_eq_ok_iff.mpr
    ⟨hn, (checkPath_rotate_eq_ok_iff shift).mpr hcheck, _, hrotated, ?_⟩
  rw [List.length_rotate, Polyline.flatten_rotate hlengths]

/-- **A closed sweep without a twist starts anywhere.** If the path is rotated, the sweep is refused
when it was refused before. Otherwise it has the same faces as before and the same rings of points,
rotated with the path. -/
theorem sweep_rotate (profile : List (Point2 K)) (path : List (Point3 K)) (shift : ℕ)
    (hshares : Scalar.HasZeroShares K path.length) :
    (RefusedAs .value (sweep profile (path.rotate shift) 0.0 true)
      ↔ RefusedAs .value (sweep profile path 0.0 true)) ∧
    (¬RefusedAs .value (sweep profile path 0.0 true) →
      ∃ made rotated, sweep profile path 0.0 true = .ok made ∧
        sweep profile (path.rotate shift) 0.0 true = .ok rotated ∧
        rotated.value.faces = made.value.faces ∧
        rotated.value.points = made.value.points.rotate (shift * profile.length)) := by
  have hsettled (path : List (Point3 K)) :=
    (refusedOnlyAs_closedSweep profile path 0.0).refusedAs_or
  refine ⟨⟨fun hrefused ↦ ?_, fun hrefused ↦ ?_⟩, fun h ↦ ?_⟩
  · refine (hsettled path).resolve_right ?_
    rintro ⟨made, hmade⟩
    exact hrefused.ne_ok (sweep_rotate_eq_ok hshares hmade shift)
  · refine (hsettled (path.rotate shift)).resolve_right ?_
    rintro ⟨made, hmade⟩
    -- the rest of a full turn leads back to the path itself
    obtain ⟨back, hback⟩ := List.IsRotated.forall path shift
    have hpath := sweep_rotate_eq_ok (by rwa [List.length_rotate]) hmade back
    rw [hback] at hpath
    exact hrefused.ne_ok hpath
  · obtain ⟨made, hmade⟩ := (hsettled path).resolve_left h
    exact ⟨made, _, hmade, sweep_rotate_eq_ok hshares hmade shift, rfl, rfl⟩

open scoped QuarterTurn in
/-- Around the triangle from its second corner on. With the first corner once more at its end the
path is refused, at the seam, and so it is where the two are next to each other. -/
theorem sweep_rotate_bend :
    (∃ made rotated, sweep square bend 0.0 true = .ok made ∧
      sweep square [⟨0, 0, 7⟩, ⟨12, 0, 16⟩, ⟨0, 0, 0⟩] 0.0 true = .ok rotated ∧
      rotated.value.faces = made.value.faces ∧
      rotated.value.points = made.value.points.rotate 4) ∧
    RefusedAs .value (sweep square (bend ++ [⟨0, 0, 0⟩]) 0.0 true) ∧
    RefusedAs .value (sweep square [⟨0, 0, 7⟩, ⟨12, 0, 16⟩, ⟨0, 0, 0⟩, ⟨0, 0, 0⟩] 0.0 true) := by
  obtain ⟨made, hmade⟩ := Outcome.exists_eq_ok_of_isSome
    (e := sweep square bend 0.0 true) (by decide +kernel)
  have hseam : RefusedAs .value (sweep square (bend ++ [⟨0, 0, 0⟩]) 0.0 true) :=
    (refusedOnlyAs_closedSweep _ _ _).refusedAs_of_isNone (by decide +kernel)
  have hshares (parts : ℕ) : Scalar.HasZeroShares ℚ parts := Scalar.hasZeroShares parts
  exact ⟨(sweep_rotate square bend 1 (hshares _)).2 fun hrefused ↦ hrefused.ne_ok hmade, hseam,
    (sweep_rotate square (bend ++ [(⟨0, 0, 0⟩ : Point3 ℚ)]) 1 (hshares _)).1.mpr hseam⟩

end Polyhedron

end SolidModel
