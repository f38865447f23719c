import Mathlib
import SolidModel.Polyhedron.Closedness
import SolidModel.Proofs.Loop.Spans
import SolidModel.Proofs.Outcome

/-!
# What the checks of a surface decide

`Polyhedron.oriented` and `Polyhedron.watertight` count edges and name those with a wrong count;
`Polyhedron.validate` walks over the faces. Here each verdict becomes a statement on the list of
directed edges or on the faces. An oriented surface is one whose edges span the empty border.

`closed_of_spans` collects what a construction has to show so that all checks pass. Cutting the
quads of a surface into triangles adds their diagonals in both directions and nothing else.
-/

namespace SolidModel

/-! ## Counting edges without their direction -/

namespace Face

theorem undirected_eq_iff {d e : ℤ × ℤ} :
    undirected d = undirected e ↔ d = e ∨ d = e.swap := by
  obtain ⟨a, b⟩ := d
  obtain ⟨c, e⟩ := e
  simp only [undirected, Prod.swap_prod_mk]
  split <;> split <;> simp only [Prod.mk.injEq] <;> omega

/-- An edge between two different vertices is passed as often as the two directions together. -/
theorem count_map_undirected (edges : List (ℤ × ℤ)) {e : ℤ × ℤ} (he : e.1 ≠ e.2) :
    (edges.map undirected).count (undirected e) = edges.count e + edges.count e.swap := by
  have hne : e ≠ e.swap := fun h ↦ he (congrArg Prod.fst h)
  induction edges with
  | nil => rfl
  | cons d edges ih =>
    rw [List.map_cons, List.count_cons, List.count_cons, List.count_cons, ih]
    simp only [beq_iff_eq, undirected_eq_iff]
    by_cases h1 : d = e
    · subst h1
      simp only [true_or, if_true, if_neg hne]
      omega
    · by_cases h2 : d = e.swap
      · subst h2
        simp only [or_true, if_true, if_neg hne.symm]
        omega
      · simp only [h1, h2, or_self, if_false]
        omega

end Face

namespace Polyhedron

variable {K : Type} {p : Polyhedron K}

/-! ## The verdicts -/

theorem oriented_ok_iff : p.oriented.ok = true ↔ Spans [] p.edges := by
  simp only [oriented, Bool.and_eq_true, List.isEmpty_iff, List.filter_eq_nil_iff,
    Tally.mem_kinds_ofList, Tally.count_ofList, decide_eq_true_eq, beq_iff_eq, not_lt]
  constructor
  · rintro ⟨hone, hswap⟩
    refine ⟨by simp, fun e he _ ↦ ?_⟩
    have hpos : ∀ d ∈ p.edges, 0 < p.edges.count d := fun d hd ↦ List.count_pos_iff.mpr hd
    have hmem : e.swap ∈ p.edges := List.count_pos_iff.mp (Nat.pos_of_ne_zero (hswap e he))
    exact ⟨le_antisymm (hone e he) (hpos e he), le_antisymm (hone _ hmem) (hpos _ hmem)⟩
  · intro h
    refine ⟨fun e he ↦ (h.across e he List.not_mem_nil).1.le, fun e he ↦ ?_⟩
    rw [(h.across e he List.not_mem_nil).2]
    exact Nat.one_ne_zero

theorem watertight_ok_iff :
    p.watertight.ok = true ↔ p.edges ≠ [] ∧
      ∀ e ∈ p.edges, (p.edges.map Face.undirected).count (Face.undirected e) = 2 := by
  have hkinds : (Tally.ofList (p.edges.map Face.undirected)).kinds = [] ↔ p.edges = [] := by
    rw [List.eq_nil_iff_forall_not_mem, List.eq_nil_iff_forall_not_mem]
    simp only [Tally.mem_kinds_ofList, List.mem_map, not_exists, not_and]
    exact ⟨fun h e he ↦ h _ e he rfl, fun h _ e he ↦ absurd he (h e)⟩
  simp only [watertight, Bool.and_eq_true, Bool.not_eq_true', List.isEmpty_iff,
    List.isEmpty_eq_false_iff, List.filter_eq_nil_iff, Tally.mem_kinds_ofList,
    Tally.count_ofList, decide_eq_true_eq, beq_iff_eq, not_lt, List.forall_mem_map, ne_eq,
    hkinds, and_assoc]
  refine and_congr_right fun _ ↦ ?_
  constructor
  · rintro ⟨h1, h2⟩ e he
    have hpos := List.count_pos_iff.mpr (List.mem_map_of_mem (f := Face.undirected) he)
    have := h1 e he
    have := h2 e he
    omega
  · refine fun h ↦ ⟨fun e he ↦ ?_, fun e he ↦ (h e he).le⟩
    rw [h e he]
    decide

private theorem watertight_of_spans (hne : p.edges ≠ []) (hloop : ∀ e ∈ p.edges, e.1 ≠ e.2)
    (h : Spans [] p.edges) : p.watertight.ok = true := by
  refine watertight_ok_iff.mpr ⟨hne, fun e he ↦ ?_⟩
  obtain ⟨h1, h2⟩ := h.across e he List.not_mem_nil
  rw [Face.count_map_undirected _ (hloop e he), h1, h2]

/-- The faces are triangles and quads over the points. -/
def FacesFit (n : ℕ) (faces : List Face) : Prop :=
  ∀ f ∈ faces, (f.length = 3 ∨ f.length = 4) ∧ ∀ v ∈ f, 0 ≤ v ∧ v < n

theorem checkFace_eq_ok_iff {n index : ℕ} {f : Face} :
    checkFace (K := K) n index f = .ok () ↔
      (f.length = 3 ∨ f.length = 4) ∧ ∀ v ∈ f, 0 ≤ v ∧ v < n := by
  have hforM : (f.forM fun v ↦
      if 0 ≤ v ∧ v < n then Except.ok () else .error (Fault.faceIndex (K := K) index v n))
        = .ok () ↔ ∀ v ∈ f, 0 ≤ v ∧ v < n := by
    rw [Outcome.forM_eq_ok_iff]
    refine forall₂_congr fun v _ ↦ ?_
    split <;> simp_all
  rw [checkFace]
  by_cases hlen : f.length = 3 ∨ f.length = 4
  · rw [if_neg (by omega)]
    simpa [hlen, bind, Except.bind, pure, Except.pure] using hforM
  · rw [if_pos (by omega)]
    simp [hlen, bind, Except.bind, throw, throwThe, MonadExceptOf.throw]

theorem validate_eq_ok_iff : p.validate = .ok () ↔ FacesFit p.points.length p.faces := by
  rw [validate, Outcome.forM_eq_ok_iff]
  simp only [checkFace_eq_ok_iff]
  constructor
  · intro h f hf
    obtain ⟨i, hi, rfl⟩ := List.mem_iff_getElem.mp hf
    exact h (p.faces[i], i) (List.mem_zipIdx_iff_getElem?.mpr (by simp [hi]))
  · rintro h ⟨f, i⟩ hf
    exact h f (List.fst_mem_of_mem_zipIdx hf)

/-! ## Surfaces that pass -/

/-- The surface passes all three checks. -/
structure Closed (p : Polyhedron K) : Prop where
  validate : p.validate = .ok ()
  watertight : p.watertight.ok = true
  oriented : p.oriented.ok = true

/-- The checks count points and read faces, and look at nothing else. -/
theorem Closed.of_faces_eq {q : Polyhedron K} (h : p.Closed)
    (hpoints : q.points.length = p.points.length) (hfaces : q.faces = p.faces) : q.Closed where
  validate := by
    rw [validate_eq_ok_iff, hpoints, hfaces]
    exact validate_eq_ok_iff.mp h.validate
  watertight := by
    have hedges : q.edges = p.edges := by rw [edges, edges, hfaces]
    rw [watertight_ok_iff, hedges]
    exact watertight_ok_iff.mp h.watertight
  oriented := by
    have hedges : q.edges = p.edges := by rw [edges, edges, hfaces]
    rw [oriented_ok_iff, hedges]
    exact oriented_ok_iff.mp h.oriented

theorem Closed.shifted [Scalar K] (h : p.Closed) (delta : Point3 K) : (p.shifted delta).Closed :=
  h.of_faces_eq (by rw [Polyhedron.shifted, Polyline.shifted, List.length_map]) rfl

theorem Closed.rotate [Scalar K] [Trig K] {q : Polyhedron K} {axis : Axis} {degrees : K}
    (h : p.Closed) (hq : p.rotate axis degrees = .ok q) : q.Closed := by
  simp only [Polyhedron.rotate, Outcome.bind_eq_ok_iff, Outcome.pure_eq_ok_iff] at hq
  obtain ⟨points, hpoints, rfl⟩ := hq
  exact h.of_faces_eq (Outcome.length_of_mapM_eq_ok hpoints) rfl

/-- The surface with its quads cut into triangles. -/
def split (p : Polyhedron K) : Polyhedron K := { p with faces := p.triangles }

theorem closed_of_spans (hfit : FacesFit p.points.length p.faces) (hne : p.edges ≠ [])
    (hloop : ∀ e ∈ p.edges, e.1 ≠ e.2) (h : Spans [] p.edges) : p.Closed where
  validate := validate_eq_ok_iff.mpr hfit
  watertight := watertight_of_spans hne hloop h
  oriented := oriented_ok_iff.mpr h

end Polyhedron

namespace Face

/-- What cutting a face adds to its edges: the first diagonal of a quad, both ways. -/
def diagonals : Face → List (ℤ × ℤ)
  | [a, _, c, _] => [(a, c), (c, a)]
  | _ => []

theorem triangles_ne_nil (f : Face) : f.triangles ≠ [] := by
  unfold triangles
  split <;> exact List.cons_ne_nil _ _

theorem of_mem_triangles {f g : Face} (hg : g.length = 3 ∨ g.length = 4) (hf : f ∈ g.triangles) :
    f.length = 3 ∧ ∀ v ∈ f, v ∈ g := by
  match g, hg with
  | [a, b, c], _ =>
    simp only [triangles, List.mem_singleton] at hf
    subst hf
    exact ⟨rfl, fun _ hv ↦ hv⟩
  | [a, b, c, d], _ =>
    simp only [triangles, List.mem_cons, List.not_mem_nil, or_false] at hf
    rcases hf with rfl | rfl <;> exact ⟨rfl, by simp⟩

theorem edges_triangles_perm (f : Face) :
    (f.triangles.flatMap edges).Perm (f.edges ++ f.diagonals) := by
  match f with
  | [a, b, c, d] =>
    change [(a, b), (b, c), (c, a), (a, c), (c, d), (d, a)].Perm
      [(a, b), (b, c), (c, d), (d, a), (a, c), (c, a)]
    have hparts : [(a, c), (c, a), (c, d), (d, a)].Perm [(c, d), (d, a), (a, c), (c, a)] :=
      @List.perm_append_comm _ [(a, c), (c, a)] [(c, d), (d, a)]
    exact (List.perm_append_left_iff [(a, b), (b, c)]).mpr ((List.Perm.swap _ _ _).trans hparts)
  | [] | [_] | [_, _] | [_, _, _] => simp [triangles, diagonals]
  | _ :: _ :: _ :: _ :: _ :: _ => simp [triangles, diagonals]

theorem edges_flatMap_triangles_perm (faces : List Face) :
    ((faces.flatMap triangles).flatMap edges).Perm
      (faces.flatMap edges ++ faces.flatMap diagonals) := by
  induction faces with
  | nil => exact List.Perm.refl _
  | cons f faces ih =>
    simp only [List.flatMap_cons, List.flatMap_append]
    refine ((edges_triangles_perm f).append ih).trans ?_
    simp only [List.append_assoc]
    refine (List.perm_append_left_iff _).mpr ?_
    rw [← List.append_assoc, ← List.append_assoc]
    exact List.perm_append_comm.append_right _

end Face

namespace Polyhedron

variable {K : Type} {p : Polyhedron K}

/-! ## Counting points and faces -/

/-- The surface has so many points, so many quads and triangles and no other faces, and passes
all checks, also when its quads are cut into triangles. -/
structure ClosedWith (p : Polyhedron K) (points quads triangles : ℕ) : Prop where
  length_points : p.points.length = points
  countP_quads : p.faces.countP (·.length == 4) = quads
  countP_triangles : p.faces.countP (·.length == 3) = triangles
  length_faces : p.faces.length = quads + triangles
  closed : p.Closed
  closed_split : p.split.Closed

theorem closedWith_of_perm {quads triangles : List Face} (hquads : ∀ f ∈ quads, f.length = 4)
    (htriangles : ∀ f ∈ triangles, f.length = 3) (hfaces : p.faces.Perm (triangles ++ quads))
    (h : p.Closed ∧ p.split.Closed) :
    p.ClosedWith p.points.length quads.length triangles.length where
  length_points := rfl
  countP_quads := by
    have hnone : triangles.countP (·.length == 4) = 0 :=
      List.countP_eq_zero.mpr fun f hf ↦ by simp [htriangles f hf]
    rw [hfaces.countP_eq, List.countP_append, hnone, Nat.zero_add]
    exact List.countP_eq_length.mpr fun f hf ↦ by simp [hquads f hf]
  countP_triangles := by
    have hnone : quads.countP (·.length == 3) = 0 :=
      List.countP_eq_zero.mpr fun f hf ↦ by simp [hquads f hf]
    rw [hfaces.countP_eq, List.countP_append, hnone, Nat.add_zero]
    exact List.countP_eq_length.mpr fun f hf ↦ by simp [htriangles f hf]
  length_faces := by rw [hfaces.length_eq, List.length_append, Nat.add_comm]
  closed := h.1
  closed_split := h.2

end Polyhedron

end SolidModel
