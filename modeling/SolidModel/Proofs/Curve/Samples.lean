import Mathlib
import SolidModel.Proofs.Curve.Joints
import SolidModel.Proofs.Space.VectorArea

/-!
# The samples of a chain

The samples of a curve are taken at equal steps of its parameter, from its start on. Those of a
chain are the samples of its curves in a row, the last of each left out in favour of the first of
the next. With exact numbers these two are the same point, and so are the last sample of a closed
chain and its first. So every sample of every curve is among the samples of the chain, at the place
that its number and the segments of the curves before it tell.

A curve is sampled in each coordinate on its own, which is how its ends are found: see
`HasCoordinates`.
-/

namespace SolidModel

open Outcome

/-- Vectors that are given by their coordinates, in each of which they are added and multiplied. -/
class VectorOps.HasCoordinates (K : outParam Type) (P : Type) [Add K] [Mul K] [VectorOps K P] where
  Index : Type
  coordinate : Index → P → K
  ext : ∀ p q : P, (∀ i, coordinate i p = coordinate i q) → p = q
  coordinate_add : ∀ i (p q : P), coordinate i (p + q) = coordinate i p + coordinate i q
  coordinate_mul : ∀ i (p : P) (s : K), coordinate i (p * s) = coordinate i p * s

variable {K P : Type} [Field K] [LinearOrder K] [FloorRing K]

instance : VectorOps.HasCoordinates K (Point2 K) where
  Index := Bool
  coordinate i p := if i then p.x else p.y
  ext _ _ h := Point2.ext_iff'.mpr ⟨h true, h false⟩
  coordinate_add i _ _ := by cases i <;> rfl
  coordinate_mul i _ _ := by cases i <;> rfl

instance : VectorOps.HasCoordinates K (Point3 K) where
  Index := Option Bool
  coordinate i p := match i with
    | none => p.z
    | some i => if i then p.x else p.y
  ext _ _ h := Point3.ext_iff'.mpr ⟨h (some true), h (some false), h none⟩
  coordinate_add i _ _ := by rcases i with _ | _ | _ <;> rfl
  coordinate_mul i _ _ := by rcases i with _ | _ | _ <;> rfl

variable [VectorOps K P]

/-! ## The samples of one curve -/

/-- With exact numbers the steps do not add up to anything else than fractions. -/
theorem Bezier.parameters_eq_map (segments : ℤ) :
    (Bezier.parameters segments : List K)
      = (List.range (segments.toNat + 1)).map fun i : ℕ ↦ (i / segments : K) := by
  have hstep (i : ℕ) : Scalar.ofNat i * (1.0 / Scalar.ofInt segments) = (i / segments : K) := by
    rw [Scalar.ofNat_eq, Scalar.ofInt_eq, Scalar.one_eq, mul_one_div]
  simp only [Bezier.parameters, hstep]

namespace CubicBezier

/-- The samples of a curve but the last one. -/
def samples (b : CubicBezier P) : List P :=
  (List.range b.segments.toNat).map fun i : ℕ ↦ b.pointAt (i / b.segments)

@[simp] theorem length_samples (b : CubicBezier P) : b.samples.length = b.segments.toNat := by
  rw [samples, List.length_map, List.length_range]

theorem getElem?_samples (b : CubicBezier P) {i : ℕ} (hi : i < b.segments.toNat) :
    b.samples[i]? = some (b.pointAt (i / b.segments)) := by
  rw [samples, List.getElem?_map, List.getElem?_range hi, Option.map_some]

private theorem parameters_eq {segments : ℤ} (h : 1 ≤ segments) :
    (Bezier.parameters segments : List K)
      = (List.range segments.toNat).map (fun i : ℕ ↦ (i / segments : K)) ++ [1] := by
  have hlast : ((segments.toNat : ℕ) : K) / segments = 1 := by
    rw [Scalar.cast_toNat h]
    exact div_self (by exact_mod_cast (by omega : segments ≠ 0))
  rw [Bezier.parameters_eq_map, List.range_succ, List.map_append, List.map_singleton, hlast]

section

variable [VectorOps.HasCoordinates K P]

open VectorOps.HasCoordinates

theorem pointAt_zero (b : CubicBezier P) : b.pointAt (0 : K) = b.start := by
  refine ext _ _ fun i ↦ ?_
  simp only [pointAt, coordinate_add, coordinate_mul]
  norm_num

theorem pointAt_one (b : CubicBezier P) : b.pointAt (1 : K) = b.finish := by
  refine ext _ _ fun i ↦ ?_
  simp only [pointAt, coordinate_add, coordinate_mul]
  norm_num

private theorem points_eq_ok {b : CubicBezier P} (h : 1 ≤ b.segments) :
    b.points = .ok (b.samples ++ [b.finish]) := by
  rw [points, Bezier.checkSegments_eq_ok_iff.mpr h, parameters_eq h, List.map_append, List.map_map,
    List.map_singleton, pointAt_one]
  rfl

end

end CubicBezier

namespace Chain

/-! ## Blocks of samples -/

variable {c : Chain P} {b : CubicBezier P} {i j : ℕ}

/-- How many segments there are before a curve, which is given by its number. -/
def offset (c : Chain P) (j : ℕ) : ℕ := ((c.curves.take j).map fun b ↦ b.segments.toNat).sum

theorem offset_succ (hb : c.curves[j]? = some b) :
    c.offset (j + 1) = c.offset j + b.segments.toNat := by
  rw [offset, List.take_add_one, hb, List.map_append, List.sum_append]
  simp [offset]

private theorem length_flatMap_samples (c : Chain P) :
    (c.curves.flatMap CubicBezier.samples).length = c.offset c.curves.length := by
  rw [List.length_flatMap, offset, List.take_length]
  simp only [CubicBezier.length_samples]

private theorem drop_flatMap_samples (c : Chain P) (j : ℕ) :
    (c.curves.flatMap CubicBezier.samples).drop (c.offset j)
      = (c.curves.drop j).flatMap CubicBezier.samples := by
  have hlengths : (((c.curves.map CubicBezier.samples).map List.length).take j).sum
      = c.offset j := by
    rw [List.map_map, ← List.map_take, offset]
    simp only [Function.comp_def, CubicBezier.length_samples]
  rw [List.flatMap_def, ← hlengths, List.drop_sum_flatten, ← List.map_drop, ← List.flatMap_def]

private theorem getElem?_flatMap_samples (hb : c.curves[j]? = some b) (hi : i < b.segments.toNat) :
    (c.curves.flatMap CubicBezier.samples)[c.offset j + i]?
      = some (b.pointAt (i / b.segments)) := by
  obtain ⟨hj, hget⟩ := List.getElem?_eq_some_iff.mp hb
  rw [← List.getElem?_drop, drop_flatMap_samples, List.drop_eq_getElem_cons hj, hget,
    List.flatMap_cons, List.getElem?_append_left (by rwa [CubicBezier.length_samples]),
    b.getElem?_samples hi]

private theorem foldl_dropLast_append {α β : Type} (row : β → List α) (last : β → α) (l : List β)
    (b : β) (before : List α) :
    (l.map fun c ↦ row c ++ [last c]).foldl (fun before next ↦ before.dropLast ++ next)
        (before ++ [last b])
      = before ++ l.flatMap row ++ [last (l.getLast?.getD b)] := by
  induction l generalizing b before with
  | nil => simp
  | cons c l ih =>
    rw [List.map_cons, List.foldl_cons, List.dropLast_concat, ← List.append_assoc, ih,
      List.flatMap_cons, List.getLast?_cons, Option.getD_some, List.append_assoc before]

/-! ## All samples of a chain -/

variable {points : List P}

/-- The points are the samples of all curves in a row, without the last of each but the end of an
open chain. -/
def IsSampled (c : Chain P) (points : List P) : Prop :=
  points = c.curves.flatMap CubicBezier.samples ++ if c.closed then [] else [c.last.finish]

/-- The points are the samples of the curves in order, as many of each as it has segments, and the
end of an open chain. So a curve starts where the segments before it end, and all its samples from
start to finish follow in a row, around the end of the list in a closed chain. -/
structure Samples (c : Chain P) (points : List P) : Prop where
  length_eq : (points.length : ℤ)
    = (c.curves.map CubicBezier.segments).sum + if c.closed then 0 else 1
  isSampled : IsSampled c points
  start : ∀ j b, c.curves[j]? = some b → points[c.offset j]? = some b.start
  sample : ∀ j b (i : ℕ), c.curves[j]? = some b → (i : ℤ) ≤ b.segments →
    points[(c.offset j + i) % points.length]? = some (b.pointAt (i / b.segments))

private theorem getElem?_of_lt (hpoints : IsSampled c points) (hb : c.curves[j]? = some b)
    (hi : i < b.segments.toNat) : points[c.offset j + i]? = some (b.pointAt (i / b.segments)) := by
  have hsample := getElem?_flatMap_samples hb hi
  rw [hpoints, List.getElem?_append_left (List.getElem?_eq_some_iff.mp hsample).1, hsample]

theorem length_of_isSampled (hpoints : IsSampled c points) :
    points.length = c.offset c.curves.length + if c.closed then 0 else 1 := by
  rw [hpoints, List.length_append, length_flatMap_samples]
  split <;> rfl

variable [VectorOps.HasCoordinates K P]

/-- What is sampled of a chain whose curves have segments: of each curve all but its last sample,
and that of the last curve only where the chain is open. -/
theorem points_eq_ok (h : ∀ b ∈ c.curves, 1 ≤ b.segments) :
    c.points = .ok (c.curves.flatMap CubicBezier.samples
      ++ if c.closed then [] else [c.last.finish]) := by
  have hrows := mapM_eq_ok fun b hb ↦ CubicBezier.points_eq_ok (h b hb)
  have hjoined := foldl_dropLast_append CubicBezier.samples CubicBezier.finish c.later c.first
    c.first.samples
  rw [← List.flatMap_cons] at hjoined
  simp only [points, hrows, bind, Except.bind]
  rw [curves, List.map_cons, List.foldl_cons, List.dropLast_nil, List.nil_append, hjoined]
  cases c.closed with
  | false => rfl
  | true =>
    simp only [if_true, List.dropLast_concat, List.append_nil]
    rfl

private theorem getElem?_offset (hpoints : IsSampled c points) (hb : c.curves[j]? = some b)
    (hsegments : 1 ≤ b.segments) : points[c.offset j]? = some b.start := by
  have hsample := getElem?_of_lt hpoints hb (i := 0) (by omega)
  rwa [Nat.cast_zero, zero_div, b.pointAt_zero, Nat.add_zero] at hsample

/-! ## Chains whose curves go on from one another -/

section Smooth

variable [Trig K] {lengths : List K} {seam : Option K}

/-- Behind the samples of a curve stands its end, which the next curve has started from, or which
ends the chain or, if that is closed, is back at its start. -/
theorem Smooth.finish_eq (h : Smooth c lengths seam) (hpoints : IsSampled c points)
    (hb : c.curves[j]? = some b) :
    points[(c.offset j + b.segments.toNat) % points.length]? = some b.finish := by
  have hlength := length_of_isSampled hpoints
  rw [← offset_succ hb]
  cases hd : c.curves[j + 1]? with
  | some d =>
    have hstart := getElem?_offset hpoints hd (h.one_le hd)
    rw [Nat.mod_eq_of_lt (List.getElem?_eq_some_iff.mp hstart).1, hstart, h.start_eq hb hd]
  | none =>
    have hlast : j + 1 = c.curves.length := by
      have := (List.getElem?_eq_some_iff.mp hb).1
      have := List.getElem?_eq_none_iff.mp hd
      omega
    have hb : b = c.last := by
      have hget := c.getLast?_curves
      rw [List.getLast?_eq_getElem?, ← hlast, Nat.add_sub_cancel, hb] at hget
      exact Option.some.inj hget
    rw [hlast, hb]
    cases hclosed : c.closed with
    | true =>
      rw [hclosed, if_pos rfl, Nat.add_zero] at hlength
      have hfirst := getElem?_offset hpoints (j := 0) (b := c.first) rfl
        (h.segments c.first List.mem_cons_self)
      rw [← hlength, Nat.mod_self, ← h.start_first_eq hclosed, ← hfirst]
      rfl
    | false =>
      rw [hclosed, if_neg Bool.false_ne_true] at hlength
      rw [Nat.mod_eq_of_lt (by omega), hpoints, hclosed, if_neg Bool.false_ne_true,
        ← length_flatMap_samples, List.getElem?_concat_length]

theorem Smooth.samples (h : Smooth c lengths seam) (hpoints : IsSampled c points) :
    Samples c points where
  length_eq := by
    have hsum : ((c.offset c.curves.length : ℕ) : ℤ)
        = (c.curves.map CubicBezier.segments).sum := by
      rw [offset, List.take_length, Nat.cast_list_sum, List.map_map]
      refine congrArg List.sum (List.map_congr_left fun b hb ↦ ?_)
      exact Int.toNat_of_nonneg (by have := h.segments b hb; omega)
    rw [length_of_isSampled hpoints, Nat.cast_add, hsum]
    split <;> rfl
  isSampled := hpoints
  start j b hb := getElem?_offset hpoints hb (h.one_le hb)
  sample j b i hb hi := by
    have hsegments := h.one_le hb
    by_cases hlast : i < b.segments.toNat
    · have hsample := getElem?_of_lt hpoints hb hlast
      rw [Nat.mod_eq_of_lt (List.getElem?_eq_some_iff.mp hsample).1, hsample]
    · obtain rfl : i = b.segments.toNat := by omega
      have hne : (b.segments : K) ≠ 0 := by exact_mod_cast (by omega : b.segments ≠ 0)
      rw [h.finish_eq hpoints hb, Scalar.cast_toNat hsegments, div_self hne, b.pointAt_one]

/-- **Sampling a chain loses no sample and repeats none.** Whatever calls have been made on a chain,
it can be sampled, and it then has the samples of its curves in order, each joint once. -/
theorem samples_of_run {first : CubicBezier P}
    (h : Chain.start first = (.ok c : Except (Fault K) (Chain P))) (calls : List (Call K P)) :
    ∃ points, (c.run calls).points = .ok points ∧ Samples (c.run calls) points := by
  have hsmooth := (smooth_of_start h).run calls
  exact ⟨_, points_eq_ok hsmooth.segments, hsmooth.samples rfl⟩

end Smooth

section

open scoped QuarterTurn

/-- A closed chain of three curves with nine samples in all, where two calls have been refused. -/
theorem samples_of_run_wayBack :
    ∃ points, (bow.run wayBack).points = .ok points ∧ Samples (bow.run wayBack) points ∧
      points.length = 9 := by
  have hstart : Chain.start bow.first = (.ok bow : Except (Fault ℚ) _) :=
    eq_ok_of_toOption (by decide +kernel)
  have hsegments : ((bow.run wayBack).curves.map CubicBezier.segments).sum = 9 := by decide +kernel
  have hclosed : (bow.run wayBack).closed = true := by decide +kernel
  obtain ⟨points, hpoints, hsamples⟩ := samples_of_run hstart wayBack
  have hlength := hsamples.length_eq
  rw [hsegments, hclosed] at hlength
  exact ⟨points, hpoints, hsamples, by exact_mod_cast hlength⟩

end

end Chain

end SolidModel
