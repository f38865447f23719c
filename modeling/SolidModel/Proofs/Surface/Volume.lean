import Mathlib
import SolidModel.Proofs.EarClipping.Planar
import SolidModel.Proofs.Loop.Series
import SolidModel.Proofs.Surface.Prism

/-!
# The volume within a surface

Every triangle of a surface spans a pyramid with the origin. Its volume is counted positive or
negative, depending on the side that the origin is on, and the sum is the volume within the surface,
positive if the faces run counter-clockwise seen from outside.

A surface is made of rings, walls and caps, and its volume is taken apart in the same way. What a
wall adds is a sum over the edges of the profile. What a cap adds depends on its plane and on its
vector area only, and not on the ears it is cut into, see `sum_tripleProduct_points`.
-/

namespace SolidModel

open VectorOps (dot)

variable {α : Type} {places ring : List α} {start n : ℕ}

/-! ## The points of a face -/

/-- The points that a face runs through. -/
def Face.points (f : Face) (places : List α) : List α :=
  f.filterMap fun v ↦ (position? places.length v).bind (places[·]?)

private theorem bind_position?_natCast (places : List α) (i : ℕ) :
    (position? places.length (i : ℤ)).bind (places[·]?) = places[i]? := by
  have hplace : ¬((i : ℤ) < 0) := Int.not_ofNat_neg i
  simp only [position?, if_neg hplace, Nat.cast_nonneg, Nat.cast_lt, true_and, Int.toNat_natCast]
  split
  next hi => rw [Option.bind_some]
  next hi => rw [List.getElem?_eq_none (not_lt.mp hi), Option.bind_none]

private theorem Face.points_map_natCast (l : List ℕ) (places : List α) :
    Face.points (l.map fun i : ℕ ↦ (i : ℤ)) places = l.filterMap (places[·]?) := by
  rw [Face.points, List.filterMap_map]
  exact List.filterMap_congr fun i _ ↦ bind_position?_natCast places i

private theorem Face.length_points {f : Face} (hlength : f.length = 3)
    (hfit : ∀ v ∈ f, 0 ≤ v ∧ v < places.length) : (f.points places).length = 3 := by
  rw [Face.points, List.length_filterMap_eq_countP, ← hlength, List.countP_eq_length]
  intro v hv
  obtain ⟨h0, hlt⟩ := hfit v hv
  obtain ⟨i, rfl⟩ := Int.eq_ofNat_of_zero_le h0
  simp only [bind_position?_natCast]
  rw [List.getElem?_eq_getElem (by exact_mod_cast hlt)]
  rfl

/-- The elements of the ring have the positions from `start` on. -/
def StandsAt (places : List α) (start : ℕ) (ring : List α) : Prop :=
  ∀ i < ring.length, places[start + i]? = ring[i]?

private theorem standsAt_append_left (ring rest : List α) : StandsAt (ring ++ rest) 0 ring := by
  intro i hi
  rw [Nat.zero_add, List.getElem?_append_left hi]

private theorem standsAt_append_right (before ring : List α) :
    StandsAt (before ++ ring) before.length ring := by
  intro i _
  rw [List.getElem?_append_right (Nat.le_add_right _ _), Nat.add_sub_cancel_left]

/-- Rings of one length put in a row. -/
theorem standsAt_flatten {rings : List (List α)} (hlength : ∀ ring ∈ rings, ring.length = n) {k : ℕ}
    (hk : rings[k]? = some ring) : StandsAt rings.flatten (k * n) ring := by
  intro i hi
  induction rings generalizing k with
  | nil => cases hk
  | cons first rest ih =>
    obtain ⟨hfirst, hrest⟩ := List.forall_mem_cons.mp hlength
    rw [List.flatten_cons]
    cases k with
    | zero =>
      obtain rfl : first = ring := Option.some.inj hk
      rw [Nat.zero_mul, Nat.zero_add, List.getElem?_append_left hi]
    | succ k =>
      have hplace : (k + 1) * n + i = first.length + (k * n + i) := by
        rw [hfirst]
        ring
      rw [hplace, List.getElem?_append_right (Nat.le_add_right _ _), Nat.add_sub_cancel_left]
      exact ih hrest hk

private theorem getElem?_of_standsAt {β : Type} {profile : List β} {f : β → α}
    (h : StandsAt places start (profile.map f)) {i : ℕ} (hi : i < profile.length) :
    places[start + i]? = some (f profile[i]) := by
  rw [h i (by rwa [List.length_map]), List.getElem?_map, List.getElem?_eq_getElem hi]
  rfl

private theorem Triangle.lt_of_mem_toList {s : Triangle} (hs : s.Ascends n) :
    ∀ i ∈ s.toList, i < n := by
  obtain ⟨i, j, k, hij, hjk, hk, rfl | rfl | rfl⟩ := hs <;>
  · simp only [Triangle.toList, List.forall_mem_cons]
    exact ⟨by omega, by omega, by omega, List.forall_mem_nil _⟩

private theorem Triangle.exists_points {s : Triangle} (hs : ∀ i ∈ s.toList, i < ring.length) :
    ∃ a b c, s.points ring = [a, b, c] := by
  simp only [Triangle.toList, List.forall_mem_cons] at hs
  obtain ⟨ha, hb, hc, -⟩ := hs
  refine ⟨ring[s.a], ring[s.b], ring[s.c], ?_⟩
  simp only [Triangle.points, Triangle.toList, List.filterMap_cons, List.filterMap_nil,
    List.getElem?_eq_getElem ha, List.getElem?_eq_getElem hb, List.getElem?_eq_getElem hc]

/-- Every triangle of a closed surface has its three points. -/
theorem Polyhedron.Closed.length_points {K : Type} {p : Polyhedron K} (h : p.Closed) :
    ∀ f ∈ p.triangles, (f.points p.points).length = 3 := by
  intro f hf
  obtain ⟨g, hg, hf⟩ := List.mem_flatMap.mp hf
  obtain ⟨hlength, hfit⟩ := validate_eq_ok_iff.mp h.validate g hg
  obtain ⟨hthree, hsub⟩ := Face.of_mem_triangles hlength hf
  exact Face.length_points hthree fun v hv ↦ hfit v (hsub v hv)

/-! ## Pyramids -/

variable {K : Type} [Field K] [LinearOrder K] [FloorRing K]

/-- Six times the volume of the pyramid over a triangle, with the origin as its top. -/
def tripleProduct : List (Point3 K) → K
  | [a, b, c] => dot a (b.cross c)
  | _ => 0

private theorem tripleProduct_swap (a b c : Point3 K) :
    tripleProduct [c, b, a] = -tripleProduct [a, b, c] := by
  simp only [tripleProduct, Point3.dot_eq, Point3.cross_x, Point3.cross_y, Point3.cross_z]
  ring

private theorem tripleProduct_eq_dot_doubledVectorArea (a b c : Point3 K) :
    tripleProduct [a, b, c] = dot a (Polyline.doubledVectorArea [a, b, c]) := by
  rw [Polyline.doubledVectorArea_triangle]
  simp only [tripleProduct, Point3.dot_eq, Point3.cross_x, Point3.cross_y, Point3.cross_z,
    Point3.sub_x, Point3.sub_y, Point3.sub_z]
  ring

/-- Six times the volume of the pyramids over a face. -/
def Face.spanned (places : List (Point3 K)) (f : Face) : K :=
  (f.triangles.map fun g ↦ tripleProduct (g.points places)).sum

/-- The volume within a surface, as far as the surface is closed. -/
def Polyhedron.volume (p : Polyhedron K) : K :=
  (p.triangles.map fun f ↦ tripleProduct (f.points p.points)).sum / 6

theorem Polyhedron.volume_eq (p : Polyhedron K) :
    p.volume = (p.faces.map (Face.spanned p.points)).sum / 6 := by
  rw [volume, triangles, List.map_flatMap, Polyline.sum_flatMap]
  rfl

namespace Polyhedron

variable {places ring : List (Point3 K)} {t : Triangulation}

/-! ## Caps -/

private theorem spanned_ofTriangle (hring : StandsAt places start ring) {s : Triangle}
    (hs : ∀ i ∈ s.toList, i < ring.length) :
    Face.spanned places (Face.ofTriangle start s) = tripleProduct (s.points ring) := by
  have hpoints : (Face.ofTriangle start s).points places = s.points ring := by
    have hface : Face.ofTriangle start s
        = (s.toList.map fun i ↦ start + i).map fun i : ℕ ↦ (i : ℤ) := by
      simp only [Face.ofTriangle, Triangle.toList, List.map_cons, List.map_nil, Nat.add_comm]
    rw [hface, Face.points_map_natCast, List.filterMap_map, Triangle.points]
    exact List.filterMap_congr fun i hi ↦ hring i (hs i hi)
  rw [← hpoints]
  exact List.sum_singleton

theorem sum_spanned_cap (hring : StandsAt places start ring) (ht : t.Fills ring.length) :
    ((cap start t).map (Face.spanned places)).sum
      = (t.triangles.map fun s ↦ tripleProduct (s.points ring)).sum := by
  rw [cap, List.map_map]
  refine congrArg List.sum (List.map_congr_left fun s hs ↦ ?_)
  exact spanned_ofTriangle hring (Triangle.lt_of_mem_toList (ht.ascends s hs))

theorem sum_spanned_cap_reversed (hring : StandsAt places start ring) (ht : t.Fills ring.length) :
    ((cap start t.reversed).map (Face.spanned places)).sum
      = -(t.triangles.map fun s ↦ tripleProduct (s.points ring)).sum := by
  rw [cap, Triangulation.reversed, List.map_map, List.map_map, List.sum_neg, List.map_map]
  refine congrArg List.sum (List.map_congr_left fun s hs ↦ ?_)
  have hbelow := Triangle.lt_of_mem_toList (ht.ascends s hs)
  obtain ⟨a, b, c, hpoints⟩ := Triangle.exists_points hbelow
  have hreversed : s.reversed.points ring = [c, b, a] := by
    rw [Triangle.points, Triangle.toList_reversed, List.filterMap_reverse, ← Triangle.points,
      hpoints]
    rfl
  refine (spanned_ofTriangle hring ?_).trans ?_
  · rw [Triangle.toList_reversed]
    exact fun i hi ↦ hbelow i (List.mem_reverse.mp hi)
  · rw [hreversed, tripleProduct_swap, Function.comp_apply, hpoints]

/-- **What a planar cap adds is given by its plane and its vector area**, whatever ears it is cut
into. -/
theorem sum_tripleProduct_points [IsStrictOrderedRing K] {normal : Point3 K} {k : K}
    {loop : List (Point2 K)} (h : Triangulation.ofLoop loop = .ok t)
    (hlength : ring.length = loop.length) (hplane : ∀ p ∈ ring, dot normal p = k) :
    dot normal normal * (t.triangles.map fun s ↦ tripleProduct (s.points ring)).sum
      = k * dot normal (Polyline.doubledVectorArea ring) := by
  have htriangle : ∀ s ∈ t.triangles, dot normal normal * tripleProduct (s.points ring)
      = k * dot normal (Polyline.doubledVectorArea (s.points ring)) := by
    intro s hs
    have hascends : s.Ascends ring.length :=
      hlength ▸ (EarClipping.fills_of_ofLoop h).ascends s hs
    obtain ⟨a, b, c, hpoints⟩ := Triangle.exists_points (Triangle.lt_of_mem_toList hascends)
    have hin : ∀ p ∈ [a, b, c], dot normal p = k := fun p hp ↦
      hplane p (Triangle.mem_of_mem_points (hpoints ▸ hp))
    have hnormal : dot a normal = k := by
      rw [← hin a List.mem_cons_self, Point3.dot_eq, Point3.dot_eq]
      ring
    rw [hpoints, tripleProduct_eq_dot_doubledVectorArea, ← hnormal]
    exact Point3.dot_self_mul_dot (Polyline.cross_doubledVectorArea hin) a
  have harea : (t.triangles.map fun s ↦ Polyline.doubledVectorArea (s.points ring)).sum
      = Polyline.doubledVectorArea ring :=
    EarClipping.edgeSum_of_ofLoop Polyline.alternates_cross hlength h
  calc dot normal normal * (t.triangles.map fun s ↦ tripleProduct (s.points ring)).sum
      = (t.triangles.map fun s ↦
          k * Point3.dotHom normal (Polyline.doubledVectorArea (s.points ring))).sum := by
        rw [← List.sum_map_mul_left]
        exact congrArg List.sum (List.map_congr_left htriangle)
    _ = k * Point3.dotHom normal (Polyline.doubledVectorArea ring) := by
        rw [List.sum_map_mul_left, ← harea, map_list_sum, List.map_map]
        rfl

/-! ## Walls -/

section Walls

/-- Six times the volume of the pyramids over a quad. -/
def quadProduct (a b c d : Point3 K) : K := dot a (b.cross c) + dot a (c.cross d)

private theorem spanned_quad {i j k l : ℕ} {a b c d : Point3 K} (ha : places[i]? = some a)
    (hb : places[j]? = some b) (hc : places[k]? = some c) (hd : places[l]? = some d) :
    Face.spanned places [(i : ℤ), (j : ℤ), (k : ℤ), (l : ℤ)] = quadProduct a b c d := by
  have hfirst : Face.points [(i : ℤ), (j : ℤ), (k : ℤ)] places = [a, b, c] := by
    refine (Face.points_map_natCast [i, j, k] places).trans ?_
    simp only [List.filterMap_cons, List.filterMap_nil, ha, hb, hc]
  have hsecond : Face.points [(i : ℤ), (k : ℤ), (l : ℤ)] places = [a, c, d] := by
    refine (Face.points_map_natCast [i, k, l] places).trans ?_
    simp only [List.filterMap_cons, List.filterMap_nil, ha, hc, hd]
  simp only [Face.spanned, Face.triangles, List.map_cons, List.map_nil, hfirst, hsecond,
    List.sum_cons, List.sum_nil, add_zero, tripleProduct, quadProduct]

variable {profile : List α} {f g : α → Point3 K} {lower upper : ℕ}

theorem sum_spanned_walls (hlower : StandsAt places lower (profile.map f))
    (hupper : StandsAt places upper (profile.map g)) :
    ((walls lower upper profile.length).map (Face.spanned places)).sum
      = Polyline.edgeSum (fun e ↦ quadProduct (f e.1) (f e.2) (g e.2) (g e.1)) profile := by
  rw [walls, List.map_map]
  exact Polyline.sum_range_eq_edgeSum (fun i j ↦ Face.spanned places
    [((lower + i : ℕ) : ℤ), ((lower + j : ℕ) : ℤ), ((upper + j : ℕ) : ℤ), ((upper + i : ℕ) : ℤ)])
    profile fun i j hi hj ↦ spanned_quad (getElem?_of_standsAt hlower hi)
      (getElem?_of_standsAt hlower hj) (getElem?_of_standsAt hupper hj)
      (getElem?_of_standsAt hupper hi)

theorem sum_spanned_revolvedWalls (hlower : StandsAt places lower (profile.map f))
    (hupper : StandsAt places upper (profile.map g)) :
    ((revolvedWalls lower upper profile.length).map (Face.spanned places)).sum
      = Polyline.edgeSum (fun e ↦ quadProduct (f e.1) (g e.1) (g e.2) (f e.2)) profile := by
  rw [revolvedWalls, List.map_map]
  exact Polyline.sum_range_eq_edgeSum (fun i j ↦ Face.spanned places
    [((lower + i : ℕ) : ℤ), ((upper + i : ℕ) : ℤ), ((upper + j : ℕ) : ℤ), ((lower + j : ℕ) : ℤ)])
    profile fun i j hi hj ↦ spanned_quad (getElem?_of_standsAt hlower hi)
      (getElem?_of_standsAt hupper hi) (getElem?_of_standsAt hupper hj)
      (getElem?_of_standsAt hlower hj)

end Walls

/-! ## Prisms -/

section Prism

variable {profile : List (Point2 K)} {height : K}

private theorem atHeight_eq_carried (profile : List (Point2 K)) (z : K) :
    Polyline.atHeight profile z = Polyline.carried profile ⟨1, 0, 0⟩ ⟨0, 1, 0⟩ ⟨0, 0, z⟩ := by
  refine List.map_congr_left fun p _ ↦ ?_
  simp [Point2.atHeight, Point3.ext_iff']

private theorem sum_tripleProduct_atHeight [IsStrictOrderedRing K]
    (h : Triangulation.ofLoop profile = .ok t) (z : K) :
    (t.triangles.map fun s ↦ tripleProduct (s.points (Polyline.atHeight profile z))).sum
      = z * Polyline.doubledArea profile := by
  have hplane : ∀ p ∈ Polyline.atHeight profile z, dot ⟨0, 0, 1⟩ p = z := by
    intro p hp
    obtain ⟨q, -, rfl⟩ := List.mem_map.mp hp
    simp [Point3.dot_eq, Point2.atHeight]
  have hcap := sum_tripleProduct_points h (by simp [Polyline.atHeight]) hplane
  rw [atHeight_eq_carried, Polyline.doubledVectorArea_carried, ← atHeight_eq_carried] at hcap
  simpa [Point3.dot_eq] using hcap

private theorem quadProduct_atHeight (p q : Point2 K) (height : K) :
    quadProduct (p.atHeight 0) (q.atHeight 0) (q.atHeight height) (p.atHeight height)
      = Polyline.edgeArea p q * (2 * height) := by
  simp only [quadProduct, Point3.dot_eq, Point3.cross_x, Point3.cross_y, Point3.cross_z,
    Point2.atHeight, Polyline.edgeArea]
  ring

private theorem volume_of_prismFaces [IsStrictOrderedRing K] {p : Polyhedron K}
    {bottom top : Triangulation} (hbottom : Triangulation.ofLoop profile = .ok bottom)
    (htop : Triangulation.ofLoop profile = .ok top)
    (hpoints : p.points = Polyline.atHeight profile 0 ++ Polyline.atHeight profile height)
    (hfaces : p.faces = prismFaces profile.length bottom top) :
    p.volume = height * Polyline.signedArea profile := by
  have hlength (z : K) : (Polyline.atHeight profile z).length = profile.length :=
    List.length_map _
  have hlower : StandsAt p.points 0 (Polyline.atHeight profile 0) :=
    hpoints ▸ standsAt_append_left _ _
  have hupper : StandsAt p.points profile.length (Polyline.atHeight profile height) := by
    rw [hpoints, ← hlength 0]
    exact standsAt_append_right _ _
  have hunder : ((cap 0 bottom.reversed).map (Face.spanned p.points)).sum = 0 := by
    rw [sum_spanned_cap_reversed hlower ((hlength 0).symm ▸ EarClipping.fills_of_ofLoop hbottom),
      sum_tripleProduct_atHeight hbottom, zero_mul, neg_zero]
  have hover : ((cap profile.length top).map (Face.spanned p.points)).sum
      = height * Polyline.doubledArea profile := by
    rw [sum_spanned_cap hupper ((hlength height).symm ▸ EarClipping.fills_of_ofLoop htop),
      sum_tripleProduct_atHeight htop]
  have hwall : ((walls 0 profile.length profile.length).map (Face.spanned p.points)).sum
      = Polyline.doubledArea profile * (2 * height) := by
    rw [sum_spanned_walls hlower hupper]
    simp only [quadProduct_atHeight]
    exact Polyline.edgeSum_mul_right _ _ _
  rw [volume_eq, hfaces, prismFaces, List.map_append, List.map_append, List.sum_append,
    List.sum_append, hunder, hover, hwall, Polyline.signedArea_eq]
  ring

/-- **The volume within a prism is its height times the area of its profile**, and since a profile
that is extruded is clockwise, its faces are so too. -/
theorem volume_of_linearExtrude [IsStrictOrderedRing K] {made : Noted (Polyhedron K)}
    (h : linearExtrude profile height = .ok made) :
    (∀ f ∈ made.value.triangles, (f.points made.value.points).length = 3) ∧
      made.value.volume = height * Polyline.signedArea profile ∧ made.value.volume ≤ 0 := by
  have hclosed := closed_of_linearExtrude h
  simp only [linearExtrude, linearExtrudeBy, capped, Outcome.guard_eq_ok_iff, not_le,
    Outcome.bind_eq_ok_iff, Outcome.pure_eq_ok_iff, Scalar.zero_eq] at h
  obtain ⟨-, hheight, bottom, hbottom, top, htop, hmade⟩ := h
  have hvolume : made.value.volume = height * Polyline.signedArea profile :=
    volume_of_prismFaces hbottom htop (by rw [← hmade]) (by rw [← hmade, prismFaces])
  refine ⟨hclosed.length_points, hvolume, ?_⟩
  rw [hvolume]
  exact mul_nonpos_of_nonneg_of_nonpos hheight.le (EarClipping.signedArea_nonpos_of_ofLoop hbottom)

/-- The prism over a notched loop, which is not convex. -/
theorem volume_of_linearExtrude_notched :
    ∃ made, linearExtrude EarClipping.notched 3 = .ok made ∧ made.value.volume = -30 := by
  obtain ⟨made, hmade⟩ := Outcome.exists_eq_ok_of_isSome
    (e := linearExtrude EarClipping.notched 3) (by decide +kernel)
  have harea : Polyline.signedArea EarClipping.notched = -10 := by decide +kernel
  refine ⟨made, hmade, ?_⟩
  rw [(volume_of_linearExtrude hmade).2.1, harea]
  norm_num

end Prism

end Polyhedron

end SolidModel
