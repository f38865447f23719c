import Mathlib
import SolidModel.Polyhedron.Extrusion
import SolidModel.Proofs.Plane.QuarterTurn
import SolidModel.Proofs.Surface.Tube

/-!
# Prisms and lofts are closed

A prism or loft without holes is a reversed cap over the lower ring, a cap over the upper ring
and a wall between them. The reversed cap spans the lower ring backwards and the cap spans the
upper ring, and the wall passes both rings the other way; so together they span nothing. Of the
two triangulations only that each fills its ring is used. They may be different ones.
-/

namespace SolidModel

namespace Polyhedron

variable {K : Type}

/-- What holds of every prism over a ring of `n` points: how many points and faces it has, and
that all checks pass, also when its quads are cut into triangles. -/
structure IsPrism (p : Polyhedron K) (n : ℕ) : Prop where
  length_points : p.points.length = 2 * n
  length_faces : p.faces.length = n + 2 * (n - 2)
  closed : p.Closed
  closed_split : p.split.Closed

/-- The faces between two rings of `n` points, one behind the other. -/
def prismFaces (n : ℕ) (bottom top : Triangulation) : List Face :=
  cap 0 bottom.reversed ++ cap n top ++ walls 0 n n

/-! ## Prisms -/

section Prisms

variable {n : ℕ} {bottom top : Triangulation}

/-- A prism is a tube of two rings, whatever its caps are cut into. -/
theorem isPrism_of_fills (hbottom : bottom.Fills n) (htop : top.Fills n) {p : Polyhedron K}
    (hpoints : p.points.length = 2 * n) (hfaces : p.faces = prismFaces n bottom top) :
    p.IsPrism n := by
  have hrow : p.faces = cap 0 bottom.reversed ++ cap ((0 + 1) * n) top ++
      (List.range (0 + 1)).flatMap fun k ↦ walls (k * n) ((k + 1) * n) n := by
    simpa [prismFaces] using hfaces
  have hclosed := closedWith_of_row hbottom htop hpoints (.of_eq hrow)
  exact ⟨hpoints, by simpa using hclosed.length_faces, hclosed.closed, hclosed.closed_split⟩

theorem IsPrism.of_faces_eq {p q : Polyhedron K} (h : p.IsPrism n)
    (hpoints : q.points.length = p.points.length) (hfaces : q.faces = p.faces) : q.IsPrism n where
  length_points := hpoints.trans h.length_points
  length_faces := by rw [hfaces, h.length_faces]
  closed := h.closed.of_faces_eq hpoints hfaces
  closed_split := h.closed_split.of_faces_eq hpoints (congrArg (List.flatMap Face.triangles) hfaces)

end Prisms

/-! ## The constructions -/

variable [Scalar K]

private theorem isPrism_of_capped {lower upper : List (Point2 K)} {height : K}
    {procedure : Procedure K} {made : Noted (Polyhedron K)} (hlen : upper.length = lower.length)
    (h : capped lower upper height procedure = .ok made) : made.value.IsPrism lower.length := by
  simp only [capped, Outcome.bind_eq_ok_iff, Outcome.pure_eq_ok_iff] at h
  obtain ⟨bottom, hbottom, top, htop, rfl⟩ := h
  refine isPrism_of_fills (EarClipping.fills_of_ofLoop hbottom)
    (hlen ▸ EarClipping.fills_of_ofLoop htop) ?_ rfl
  simp only [Polyline.atHeight, List.length_append, List.length_map, hlen]
  omega

theorem isPrism_of_linearExtrude {profile : List (Point2 K)} {height : K}
    {made : Noted (Polyhedron K)} (h : linearExtrude profile height = .ok made) :
    made.value.IsPrism profile.length := by
  simp only [linearExtrude, linearExtrudeBy, Outcome.guard_eq_ok_iff] at h
  exact isPrism_of_capped rfl h.2.2

theorem closed_of_linearExtrude {profile : List (Point2 K)} {height : K}
    {made : Noted (Polyhedron K)} (h : linearExtrude profile height = .ok made) :
    made.value.Closed := (isPrism_of_linearExtrude h).closed

theorem isPrism_of_loft {lower upper : List (Point2 K)} {height : K}
    {made : Noted (Polyhedron K)} (h : loft lower upper height = .ok made) :
    made.value.IsPrism lower.length := by
  simp only [loft, Outcome.guard_eq_ok_iff, not_not] at h
  exact isPrism_of_capped h.2.1 h.2.2.2

theorem isPrism_of_cylinder [Trig K] {radius height : K} {segments : ℤ}
    {made : Noted (Polyhedron K)} (h : cylinder radius height segments = .ok made) :
    ∃ profile, Profile.circle radius segments = .ok profile ∧
      made.value.IsPrism profile.length := by
  simp only [cylinder, Outcome.bind_eq_ok_iff, Outcome.pure_eq_ok_iff] at h
  obtain ⟨profile, hcircle, extruded, hextruded, rfl⟩ := h
  exact ⟨profile, hcircle, (isPrism_of_linearExtrude hextruded).of_faces_eq rfl rfl⟩

theorem closed_of_cylinder [Trig K] {radius height : K} {segments : ℤ}
    {made : Noted (Polyhedron K)} (h : cylinder radius height segments = .ok made) :
    made.value.Closed := by
  obtain ⟨_, -, hprism⟩ := isPrism_of_cylinder h
  exact hprism.closed

/-- A circle has as many points as segments, as soon as a full turn equals itself as a number. -/
private theorem length_of_circle [Trig K] {radius : K} {segments : ℤ} {points : List (Point2 K)}
    (hturn : ((360.0 : K) == 360.0) = true) (h : Profile.circle radius segments = .ok points) :
    points.length = segments.toNat := by
  simp only [Profile.circle, Profile.arc, Outcome.guard_eq_ok_iff, hturn, if_true] at h
  rw [Outcome.length_of_mapM_eq_ok h.2.2.2.2, List.length_range]

/-- **Prisms, lofts and cylinders are closed.** Whatever the coordinates, and whatever ears the
two caps are cut into, the surface has twice as many points as its profile, a wall and two caps
of the right numbers of faces, and passes all checks; and so it does with its quads cut. -/
theorem isPrism_constructions [Trig K] :
    (∀ (profile : List (Point2 K)) (height : K) (made : Noted (Polyhedron K)),
      linearExtrude profile height = .ok made → made.value.IsPrism profile.length) ∧
    (∀ (lower upper : List (Point2 K)) (height : K) (made : Noted (Polyhedron K)),
      loft lower upper height = .ok made → made.value.IsPrism lower.length) ∧
    (∀ (radius height : K) (segments : ℤ) (made : Noted (Polyhedron K)),
      cylinder radius height segments = .ok made →
        ∃ profile, Profile.circle radius segments = .ok profile ∧
          made.value.IsPrism profile.length ∧
          (((360.0 : K) == 360.0) = true → profile.length = segments.toNat)) ∧
    ∀ (n : ℕ) (bottom top : Triangulation), bottom.Fills n → top.Fills n →
      ∀ p : Polyhedron K, p.points.length = 2 * n → p.faces = prismFaces n bottom top →
        p.IsPrism n := by
  refine ⟨fun _ _ _ ↦ isPrism_of_linearExtrude, fun _ _ _ _ ↦ isPrism_of_loft, ?_,
    fun _ _ _ hbottom htop _ ↦ isPrism_of_fills hbottom htop⟩
  intro radius height segments made h
  obtain ⟨profile, hcircle, hprism⟩ := isPrism_of_cylinder h
  exact ⟨profile, hcircle, hprism, fun hturn ↦ length_of_circle hturn hcircle⟩

/-- A clockwise square. -/
def plinth : List (Point2 ℚ) := [⟨0, 0⟩, ⟨0, 4⟩, ⟨4, 4⟩, ⟨4, 0⟩]

/-- The square with a corner pushed in, which can only be cut along the diagonal from it. -/
def dented : List (Point2 ℚ) := [⟨0, 0⟩, ⟨0, 4⟩, ⟨1, 1⟩, ⟨4, 0⟩]

open EarClipping (notched) in
open scoped QuarterTurn in
/-- A notched prism, a loft whose caps are cut along different diagonals, a cylinder of four
segments, and the square prism with its caps cut like those of the loft. -/
theorem isPrism_constructions_notched :
    (∃ made, linearExtrude notched 3 = .ok made ∧ made.value.IsPrism 6) ∧
    (∃ made, loft plinth dented 2 = .ok made ∧ made.value.IsPrism 4) ∧
    (∃ made, cylinder (5 : ℚ) 2 4 = .ok made ∧ made.value.IsPrism 4) ∧
    ∃ bottom top : Triangulation, bottom.Fills 4 ∧ top.Fills 4 ∧
      bottom.triangles ≠ top.triangles ∧
      IsPrism (K := ℚ) ⟨Polyline.atHeight plinth 0 ++ Polyline.atHeight plinth 2,
        prismFaces 4 bottom top, none⟩ 4 := by
  obtain ⟨hprism, hloft, hcylinder, hfills⟩ := isPrism_constructions (K := ℚ)
  obtain ⟨extruded, hextruded⟩ := Outcome.exists_eq_ok_of_isSome
    (e := linearExtrude notched 3) (by decide +kernel)
  obtain ⟨lofted, hlofted⟩ := Outcome.exists_eq_ok_of_isSome
    (e := loft plinth dented 2) (by decide +kernel)
  obtain ⟨round, hround⟩ := Outcome.exists_eq_ok_of_isSome
    (e := cylinder (5 : ℚ) 2 4) (by decide +kernel)
  obtain ⟨profile, -, hsquare, hlength⟩ := hcylinder _ _ _ _ hround
  rw [hlength (by decide +kernel)] at hsquare
  have hbottom : Triangulation.ofLoop plinth = .ok ⟨[⟨3, 0, 1⟩, ⟨3, 1, 2⟩], 0⟩ :=
    Outcome.eq_ok_of_toOption (by decide +kernel)
  have htop : Triangulation.ofLoop dented = .ok ⟨[⟨0, 1, 2⟩, ⟨3, 0, 2⟩], 0⟩ :=
    Outcome.eq_ok_of_toOption (by decide +kernel)
  have hbottom := EarClipping.fills_of_ofLoop hbottom
  have htop := EarClipping.fills_of_ofLoop htop
  exact ⟨⟨extruded, hextruded, hprism _ _ _ hextruded⟩, ⟨lofted, hlofted, hloft _ _ _ _ hlofted⟩,
    ⟨round, hround, hsquare⟩, _, _, hbottom, htop, by decide, hfills _ _ _ hbottom htop _ rfl rfl⟩

end Polyhedron

end SolidModel
