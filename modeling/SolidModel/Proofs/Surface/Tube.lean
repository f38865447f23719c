import Mathlib
import SolidModel.Proofs.Surface.Walls
import SolidModel.Triangulation.Plane

/-!
# Rings in a row

A tube is a row of rings of equally many positions, numbered one behind the other, with a wall
from each ring to the next. It ends at its first and at its last ring, and there it is closed in
one of two ways: by a cap on either, or by one more wall that leads from the last ring back to the
first.

What a wall consists of is left open. `Joins` is all that is asked of its edges: that they span
the two rings, and that of the edges between positions of one ring it has only those of the ring.
By the second part walls are stacked without looking into them: two neighbours in a row can meet
only along the ring between them, and two that are no neighbours not at all. That part does not
depend on there being one ring on either side; all that counts is of which kind a position is.
-/

namespace SolidModel

namespace Polyhedron

variable {K : Type}

/-! ## Sides between two kinds of positions -/

/-- The side runs along `below`, whose edges are between positions of one kind, and against
`above`, whose edges are between positions of another, and has no other edges of either kind. -/
structure Joins (P Q : ℤ → Prop) (below above side : List (ℤ × ℤ)) : Prop where
  spans : Spans (below ++ above.map Prod.swap) side
  of_mem_below : ∀ e ∈ below, P e.1 ∧ P e.2
  of_mem_above : ∀ e ∈ above, Q e.1 ∧ Q e.2
  mem_below : ∀ e ∈ side, P e.1 ∧ P e.2 → e ∈ below
  mem_above : ∀ e ∈ side, Q e.1 ∧ Q e.2 → e.swap ∈ above
  ne : ∀ e ∈ side, e.1 ≠ e.2

namespace Joins

variable {P Q : ℤ → Prop} {below above side : List (ℤ × ℤ)}

theorem perm {side' : List (ℤ × ℤ)} (h : Joins P Q below above side) (hperm : side.Perm side') :
    Joins P Q below above side' where
  spans := h.spans.perm hperm
  of_mem_below := h.of_mem_below
  of_mem_above := h.of_mem_above
  mem_below e he := h.mem_below e (hperm.mem_iff.mpr he)
  mem_above e he := h.mem_above e (hperm.mem_iff.mpr he)
  ne e he := h.ne e (hperm.mem_iff.mpr he)

theorem swap (h : Joins P Q below above side) :
    Joins P Q (below.map Prod.swap) (above.map Prod.swap) (side.map Prod.swap) where
  spans := by
    have := h.spans.swap
    rwa [List.map_append] at this
  of_mem_below e he := (h.of_mem_below _ (mem_map_swap_iff.mp he)).symm
  of_mem_above e he := (h.of_mem_above _ (mem_map_swap_iff.mp he)).symm
  mem_below e he hends :=
    mem_map_swap_iff.mpr (h.mem_below _ (mem_map_swap_iff.mp he) hends.symm)
  mem_above e he hends :=
    mem_map_swap_iff.mpr (h.mem_above _ (mem_map_swap_iff.mp he) hends.symm)
  ne e he := (h.ne _ (mem_map_swap_iff.mp he)).symm

theorem append_pairs {pairs : List (ℤ × ℤ)} (h : Joins P Q below above side)
    (hpairs : Spans [] pairs) (hdisj : ∀ e ∈ side, e ∉ pairs)
    (hacross : ∀ e ∈ pairs, e.1 ≠ e.2 ∧ ¬(P e.1 ∧ P e.2) ∧ ¬(Q e.1 ∧ Q e.2)) :
    Joins P Q below above (side ++ pairs) where
  spans := h.spans.append_pairs hpairs hdisj
  of_mem_below := h.of_mem_below
  of_mem_above := h.of_mem_above
  mem_below e he hends := by
    rcases List.mem_append.mp he with he | he
    · exact h.mem_below e he hends
    · exact absurd hends (hacross e he).2.1
  mem_above e he hends := by
    rcases List.mem_append.mp he with he | he
    · exact h.mem_above e he hends
    · exact absurd hends (hacross e he).2.2
  ne e he := by
    rcases List.mem_append.mp he with he | he
    · exact h.ne e he
    · exact (hacross e he).1

/-- **Putting on the caps.** A side between positions of two kinds is closed by a cap over
either kind. -/
theorem spans_capped (h : Joins P Q below above side) (hPQ : ∀ v, P v → ¬Q v)
    {bottom top : List (ℤ × ℤ)} (hbottom : Spans (below.map Prod.swap) bottom)
    (hlower : ∀ e ∈ bottom, P e.1 ∧ P e.2) (htop : Spans above top)
    (hupper : ∀ e ∈ top, Q e.1 ∧ Q e.2) : Spans [] (bottom ++ top ++ side) := by
  have hcaps : Spans (below.map Prod.swap ++ above) (bottom ++ top) :=
    hbottom.append_of_apart htop fun e he ↦
      ⟨fun hmem ↦ hPQ _ (hlower _ hmem).1 (hupper e he).1,
        fun hmem ↦ hPQ _ (hlower _ hmem).1 (hupper e he).2⟩
  refine Spans.close ?_ h.spans fun e he hmeet ↦ ?_
  · rwa [List.map_append, List.map_map, Prod.swap_swap_eq, List.map_id]
  · have hends : (P e.1 ∧ P e.2) ∨ (Q e.1 ∧ Q e.2) := by
      rw [List.mem_append, List.mem_append] at hmeet
      rcases hmeet with (hm | hm) | hm | hm
      · exact .inl (hlower e hm)
      · exact .inr (hupper e hm)
      · exact .inl (hlower _ hm).symm
      · exact .inr (hupper _ hm).symm
    exact List.mem_append.mpr
      (hends.imp (h.mem_below e he) fun hu ↦ mem_map_swap_iff.mpr (h.mem_above e he hu))

/-- **One behind the other.** Two sides that end at the same edges and have no positions in
common but those of its kind. -/
theorem trans {R S T : ℤ → Prop} {between side' : List (ℤ × ℤ)}
    (h : Joins P Q below between side) (h' : Joins Q R between above side')
    (hS : ∀ e ∈ side, S e.1 ∧ S e.2) (hT : ∀ e ∈ side', T e.1 ∧ T e.2)
    (hmeet : ∀ v, S v → T v → Q v) (hP : ∀ v, P v → ¬T v) (hR : ∀ v, R v → ¬S v) :
    Joins P R below above (side ++ side') where
  spans := by
    refine Spans.glue h.spans h'.spans ?_ ?_ ?_
    · intro e he hside
      have hends : S e.1 ∧ S e.2 := hside.elim (hS e) fun hs ↦ (hS _ hs).symm
      have hends' := hT e he
      exact h'.mem_below e he ⟨hmeet _ hends.1 hends'.1, hmeet _ hends.2 hends'.2⟩
    · intro e he hs
      have hmem := h'.spans.mem_of_mem_border (List.mem_append_left _ hs)
      exact hP _ (h.of_mem_below e he).1 (hT _ hmem).2
    · intro e he hs
      have hs : e.swap ∈ between.map Prod.swap := List.mem_map_of_mem hs
      have hmem := h.spans.mem_of_mem_border (List.mem_append_right _ hs)
      exact hR _ (h'.of_mem_above _ (mem_map_swap_iff.mp he)).1 (hS _ hmem).1
  of_mem_below := h.of_mem_below
  of_mem_above := h'.of_mem_above
  mem_below e he hends := by
    rcases List.mem_append.mp he with he | he
    · exact h.mem_below e he hends
    · exact absurd (hT e he).1 (hP _ hends.1)
  mem_above e he hends := by
    rcases List.mem_append.mp he with he | he
    · exact absurd (hS e he).1 (hR _ hends.1)
    · exact h'.mem_above e he hends
  ne e he := (List.mem_append.mp he).elim (h.ne e) (h'.ne e)

/-- **Leading back.** Two sides that join the same positions, one the other way round, close each
other if they have no edge from kind to kind in common. -/
theorem spans_append_back {back : List (ℤ × ℤ)} (h : Joins P Q below above side)
    (hback : Joins Q P above below back)
    (hmeet : ∀ e ∈ back, e ∈ side ∨ e.swap ∈ side → (P e.1 ∧ P e.2) ∨ (Q e.1 ∧ Q e.2)) :
    Spans [] (side ++ back) := by
  refine Spans.close ?_ hback.spans fun e he hm ↦ ?_
  · refine h.spans.of_mem_iff fun e ↦ ?_
    simp only [List.map_append, List.map_map, Prod.swap_swap_eq, List.map_id, List.mem_append,
      or_comm]
  · rw [List.mem_append, mem_map_swap_iff, or_comm]
    exact (hmeet e he hm).imp (hback.mem_above e he) (hback.mem_below e he)

end Joins

/-! ## Walls and caps as faces -/

/-- Faces that join two rings and have no positions elsewhere. -/
structure IsWall (n lower upper : ℕ) (below above : List (ℤ × ℤ)) (faces : List Face) : Prop where
  ne_nil : faces ≠ []
  joins : Joins (OnRing lower n) (OnRing upper n) below above (faces.flatMap Face.edges)
  sizes : ∀ f ∈ faces, f.length = 3 ∨ f.length = 4
  places : ∀ f ∈ faces, ∀ v ∈ f, OnRing lower n v ∨ OnRing upper n v

/-- So many triangles over positions of one kind, which span a border. -/
structure IsCap (P : ℤ → Prop) (count : ℕ) (border : List (ℤ × ℤ)) (faces : List Face) :
    Prop where
  spans : Spans border (faces.flatMap Face.edges)
  ne : ∀ e ∈ faces.flatMap Face.edges, e.1 ≠ e.2
  triangles : ∀ f ∈ faces, f.length = 3 ∧ ∀ v ∈ f, P v
  length_eq : faces.length = count

theorem mem_of_mem_edges {P : ℤ → Prop} {faces : List Face} (h : ∀ f ∈ faces, ∀ v ∈ f, P v)
    {e : ℤ × ℤ} (he : e ∈ faces.flatMap Face.edges) : P e.1 ∧ P e.2 := by
  obtain ⟨f, hf, he⟩ := List.mem_flatMap.mp he
  exact ⟨h f hf _ (Polyline.fst_mem_of_mem_cyclicPairs he),
    h f hf _ (Polyline.snd_mem_of_mem_cyclicPairs he)⟩

theorem IsWall.edges_ne_nil {n lower upper : ℕ} {below above : List (ℤ × ℤ)} {faces : List Face}
    (h : IsWall n lower upper below above faces) : faces.flatMap Face.edges ≠ [] := by
  obtain ⟨f, rest, rfl⟩ := List.exists_cons_of_ne_nil h.ne_nil
  have hsize := h.sizes f List.mem_cons_self
  intro hnil
  rw [List.flatMap_cons, List.append_eq_nil_iff, ← List.length_eq_zero_iff, Face.edges,
    Polyline.length_cyclicPairs] at hnil
  omega

theorem flatMap_triangles_eq {faces : List Face} (h : ∀ f ∈ faces, f.length = 3) :
    faces.flatMap Face.triangles = faces := by
  have hone : ∀ f ∈ faces, Face.triangles f = [f] := by
    intro f hf
    match f, h f hf with
    | [_, _, _], _ => rfl
  rw [List.flatMap_congr hone, List.flatMap_singleton']

section Caps

variable {P Q : ℤ → Prop} {c d : ℕ} {below above border : List (ℤ × ℤ)}
  {faces bottom top : List Face} {p : Polyhedron K}

theorem IsCap.of_mem_edges (h : IsCap P c border faces) {e : ℤ × ℤ}
    (he : e ∈ faces.flatMap Face.edges) : P e.1 ∧ P e.2 :=
  mem_of_mem_edges (fun f hf ↦ (h.triangles f hf).2) he

theorem IsCap.flatMap_triangles (h : IsCap P c border faces) :
    faces.flatMap Face.triangles = faces :=
  flatMap_triangles_eq fun f hf ↦ (h.triangles f hf).1

theorem IsCap.facesFit {total : ℕ} (h : IsCap P c border faces)
    (hP : ∀ v, P v → 0 ≤ v ∧ v < total) : FacesFit total faces := by
  intro f hf
  obtain ⟨hlen, hplaces⟩ := h.triangles f hf
  exact ⟨.inl hlen, fun v hv ↦ hP v (hplaces v hv)⟩

theorem closedWith_of_caps (hbottom : IsCap P c below bottom) (htop : IsCap Q d above top)
    (hquads : ∀ f ∈ faces, f.length = 4) (hfaces : p.faces.Perm (bottom ++ top ++ faces))
    (h : p.Closed ∧ p.split.Closed) : p.ClosedWith p.points.length faces.length (c + d) := by
  have htriangles : ∀ f ∈ bottom ++ top, f.length = 3 := fun f hf ↦
    (List.mem_append.mp hf).elim (fun hf ↦ (hbottom.triangles f hf).1)
      fun hf ↦ (htop.triangles f hf).1
  have hcaps : (bottom ++ top).length = c + d := by
    rw [List.length_append, hbottom.length_eq, htop.length_eq]
  rw [← hcaps]
  exact closedWith_of_perm hquads htriangles hfaces h

/-- Faces that join positions of two kinds are closed by a cap over either kind. -/
theorem closed_of_joins (hjoins : Joins P Q below above (faces.flatMap Face.edges))
    (hPQ : ∀ v, P v → ¬Q v) (hbottom : IsCap P c (below.map Prod.swap) bottom)
    (htop : IsCap Q d above top) (hfit : FacesFit p.points.length faces)
    (hP : ∀ v, P v → 0 ≤ v ∧ v < p.points.length) (hQ : ∀ v, Q v → 0 ≤ v ∧ v < p.points.length)
    (hne : faces.flatMap Face.edges ≠ []) (hfaces : p.faces.Perm (bottom ++ top ++ faces)) :
    p.Closed := by
  have hedges : p.edges.Perm _ := hfaces.flatMap_right Face.edges
  rw [List.flatMap_append, List.flatMap_append] at hedges
  refine closed_of_spans ?_ ?_ ?_ (Spans.perm ?_ hedges.symm)
  · intro f hf
    rcases List.mem_append.mp (hfaces.mem_iff.mp hf) with hf | hf
    · exact (List.mem_append.mp hf).elim (hbottom.facesFit hP f) (htop.facesFit hQ f)
    · exact hfit f hf
  · intro hnil
    rw [hnil] at hedges
    exact hne (List.append_eq_nil_iff.mp hedges.nil_eq.symm).2
  · intro e he
    rcases List.mem_append.mp (hedges.mem_iff.mp he) with he | he
    · exact (List.mem_append.mp he).elim (hbottom.ne e) (htop.ne e)
    · exact hjoins.ne e he
  · exact hjoins.spans_capped hPQ hbottom.spans (fun e ↦ hbottom.of_mem_edges) htop.spans
      fun e ↦ htop.of_mem_edges

end Caps

/-! ## Tubes -/

/-- Walls that join rings of `n` positions in a row, each with the border of its ring. -/
def IsTube (n : ℕ) (border : ℕ → List (ℤ × ℤ)) (wall : ℕ → List Face) : Prop :=
  ∀ k, IsWall n (k * n) ((k + 1) * n) (border k) (border (k + 1)) (wall k)

section Tubes

variable {n : ℕ} {border : ℕ → List (ℤ × ℤ)} {wall : ℕ → List Face}

private theorem onRing_of_mem_walls (hwall : IsTube n border wall) {m : ℕ} :
    ∀ f ∈ (List.range m).flatMap wall, ∀ v ∈ f, OnRing 0 ((m + 1) * n) v := by
  intro f hf v hv
  obtain ⟨k, hk, hf⟩ := List.mem_flatMap.mp hf
  have hle : (k + 1 + 1) * n ≤ (m + 1) * n :=
    Nat.mul_le_mul_right n (by have := List.mem_range.mp hk; omega)
  have hk := (hwall k).places f hf v hv
  simp only [OnRing, Nat.succ_mul] at hk hle ⊢
  omega

/-- **The tube invariant.** However many walls there are, they join the first ring to the
last. -/
theorem joins_walls (hwall : IsTube n border wall) (m : ℕ) :
    Joins (OnRing 0 n) (OnRing ((m + 1) * n) n) (border 0) (border (m + 1))
      (((List.range (m + 1)).flatMap wall).flatMap Face.edges) := by
  induction m with
  | zero => simpa using (hwall 0).joins
  | succ m ih =>
    have hstep : (m + 1 + 1) * n = (m + 1) * n + n := Nat.succ_mul _ _
    have hstep' : (m + 1) * n = m * n + n := Nat.succ_mul _ _
    rw [List.range_succ, List.flatMap_append, List.flatMap_append, List.flatMap_singleton]
    -- the next wall and those before it have the positions of the ring between them in common
    refine ih.trans (T := fun v ↦ OnRing ((m + 1) * n) n v ∨ OnRing ((m + 1 + 1) * n) n v)
      (hwall (m + 1)).joins (fun e he ↦ mem_of_mem_edges (onRing_of_mem_walls hwall) he)
      (fun e he ↦ mem_of_mem_edges (hwall (m + 1)).places he) ?_ ?_ ?_ <;>
    · intro v
      simp only [OnRing, hstep]
      omega

private theorem edges_walls_ne_nil (hwall : IsTube n border wall) {m : ℕ} :
    ((List.range (m + 1)).flatMap wall).flatMap Face.edges ≠ [] := by
  rw [List.range_succ, List.flatMap_append, List.flatMap_append, List.flatMap_singleton]
  exact fun hnil ↦ (hwall m).edges_ne_nil (List.append_eq_nil_iff.mp hnil).2

/-- A wall reaches two neighbouring rings, so in a tube of three or more rings no edge leads from
the first ring to the last. -/
private theorem onRing_and_onRing_of_mem_walls (hwall : IsTube n border wall) {m : ℕ} {e : ℤ × ℤ}
    (he : e ∈ ((List.range (m + 2)).flatMap wall).flatMap Face.edges)
    (h1 : OnRing ((m + 2) * n) n e.1 ∨ OnRing 0 n e.1)
    (h2 : OnRing ((m + 2) * n) n e.2 ∨ OnRing 0 n e.2) :
    (OnRing 0 n e.1 ∧ OnRing 0 n e.2) ∨
      (OnRing ((m + 2) * n) n e.1 ∧ OnRing ((m + 2) * n) n e.2) := by
  obtain ⟨f, hf, he⟩ := List.mem_flatMap.mp he
  obtain ⟨k, -, hf⟩ := List.mem_flatMap.mp hf
  obtain ⟨hk1, hk2⟩ := mem_of_mem_edges (hwall k).places (List.mem_flatMap.mpr ⟨f, hf, he⟩)
  have hlast : (m + 2) * n = m * n + n + n := by rw [Nat.succ_mul, Nat.succ_mul]
  rcases Nat.eq_zero_or_pos k with rfl | hpos
  · left
    simp only [OnRing, hlast, Nat.zero_add, Nat.one_mul, Nat.zero_mul] at h1 h2 hk1 hk2 ⊢
    omega
  · right
    have hle : n ≤ k * n := Nat.le_mul_of_pos_left n hpos
    simp only [OnRing, Nat.succ_mul] at h1 h2 hk1 hk2 ⊢
    omega

/-! ### Closed tubes -/

variable {p : Polyhedron K} {m c d : ℕ} {bottom top : List Face}

private theorem facesFit_walls_of_isTube (hwall : IsTube n border wall) :
    FacesFit ((m + 1) * n) ((List.range m).flatMap wall) := by
  intro f hf
  refine ⟨?_, fun v hv ↦ ?_⟩
  · obtain ⟨k, -, hf⟩ := List.mem_flatMap.mp hf
    exact (hwall k).sizes f hf
  · have hv := onRing_of_mem_walls hwall f hf v hv
    simp only [OnRing] at hv
    omega

theorem IsWall.facesFit {lower upper total : ℕ} {below above : List (ℤ × ℤ)} {faces : List Face}
    (h : IsWall n lower upper below above faces) (hlower : lower + n ≤ total)
    (hupper : upper + n ≤ total) : FacesFit total faces := by
  intro f hf
  refine ⟨h.sizes f hf, fun v hv ↦ ?_⟩
  have hv := h.places f hf v hv
  simp only [OnRing] at hv
  omega

theorem closed_of_capped (hwall : IsTube n border wall)
    (hbottom : IsCap (OnRing 0 n) c ((border 0).map Prod.swap) bottom)
    (htop : IsCap (OnRing ((m + 1) * n) n) d (border (m + 1)) top)
    (hpoints : p.points.length = (m + 1 + 1) * n)
    (hfaces : p.faces.Perm (bottom ++ top ++ (List.range (m + 1)).flatMap wall)) : p.Closed := by
  have hfit : FacesFit p.points.length _ := hpoints ▸ facesFit_walls_of_isTube hwall
  rw [Nat.succ_mul (m + 1)] at hpoints
  refine closed_of_joins (joins_walls hwall m) ?_ hbottom htop hfit ?_ ?_ (edges_walls_ne_nil hwall)
    hfaces <;>
  · intro v hv
    simp only [OnRing, Nat.succ_mul] at hv hpoints ⊢
    omega

private theorem closed_of_ring (hwall : IsTube n border wall) {seam : List Face}
    (hseam : IsWall n ((m + 2) * n) 0 (border (m + 2)) (border 0) seam)
    (hpoints : p.points.length = (m + 2 + 1) * n)
    (hfaces : p.faces.Perm ((List.range (m + 2)).flatMap wall ++ seam)) : p.Closed := by
  have hjoins := joins_walls hwall (m + 1)
  have hstep : (m + 2 + 1) * n = (m + 2) * n + n := Nat.succ_mul _ _
  have hedges : p.edges.Perm _ := hfaces.flatMap_right Face.edges
  rw [List.flatMap_append] at hedges
  refine closed_of_spans ?_ ?_ ?_ (Spans.perm ?_ hedges.symm)
  · intro f hf
    rw [hpoints]
    rcases List.mem_append.mp (hfaces.mem_iff.mp hf) with hf | hf
    · exact facesFit_walls_of_isTube hwall f hf
    · exact hseam.facesFit hstep.ge (by rw [hstep]; omega) f hf
  · intro hnil
    rw [hnil] at hedges
    exact hseam.edges_ne_nil (List.append_eq_nil_iff.mp hedges.nil_eq.symm).2
  · intro e he
    exact (List.mem_append.mp (hedges.mem_iff.mp he)).elim (hjoins.ne e) (hseam.joins.ne e)
  · refine hjoins.spans_append_back hseam.joins fun e he hmeet ↦ ?_
    have hends := mem_of_mem_edges hseam.places he
    rcases hmeet with hmeet | hmeet
    · exact onRing_and_onRing_of_mem_walls hwall hmeet hends.1 hends.2
    · exact (onRing_and_onRing_of_mem_walls hwall hmeet hends.2 hends.1).imp And.symm And.symm

/-! ### Both forms -/

theorem closed_and_closed_split_of_capped (hwall : IsTube n border wall)
    (hcut : IsTube n border fun k ↦ (wall k).flatMap Face.triangles)
    (hbottom : IsCap (OnRing 0 n) c ((border 0).map Prod.swap) bottom)
    (htop : IsCap (OnRing ((m + 1) * n) n) d (border (m + 1)) top)
    (hpoints : p.points.length = (m + 1 + 1) * n)
    (hfaces : p.faces.Perm (bottom ++ top ++ (List.range (m + 1)).flatMap wall)) :
    p.Closed ∧ p.split.Closed := by
  refine ⟨closed_of_capped hwall hbottom htop hpoints hfaces,
    closed_of_capped hcut hbottom htop hpoints ?_⟩
  have hsplit := hfaces.flatMap_right Face.triangles
  rwa [List.flatMap_append, List.flatMap_append, hbottom.flatMap_triangles,
    htop.flatMap_triangles, List.flatMap_assoc] at hsplit

private theorem closed_and_closed_split_of_ring (hwall : IsTube n border wall)
    (hcut : IsTube n border fun k ↦ (wall k).flatMap Face.triangles) {seam : List Face}
    (hseam : IsWall n ((m + 2) * n) 0 (border (m + 2)) (border 0) seam)
    (hseamCut : IsWall n ((m + 2) * n) 0 (border (m + 2)) (border 0) (seam.flatMap Face.triangles))
    (hpoints : p.points.length = (m + 2 + 1) * n)
    (hfaces : p.faces.Perm ((List.range (m + 2)).flatMap wall ++ seam)) :
    p.Closed ∧ p.split.Closed := by
  refine ⟨closed_of_ring hwall hseam hpoints hfaces, closed_of_ring hcut hseamCut hpoints ?_⟩
  have hsplit := hfaces.flatMap_right Face.triangles
  rwa [List.flatMap_append, List.flatMap_assoc] at hsplit

end Tubes

/-! ## Walls of quads, and triangulated caps -/

section Quads

variable {n lower upper : ℕ}

theorem isWall_walls (hn : 3 ≤ n) (hrings : lower + n ≤ upper ∨ upper + n ≤ lower) :
    IsWall n lower upper (ringEdges lower n) (ringEdges upper n) (walls lower upper n) where
  ne_nil := by
    rw [walls, ne_eq, List.map_eq_nil_iff, List.range_eq_nil]
    omega
  joins :=
    { spans := spans_walls hn hrings
      of_mem_below := fun _ he ↦ within_iff.mp (within_of_mem_ringEdges he)
      of_mem_above := fun _ he ↦ within_iff.mp (within_of_mem_ringEdges he)
      mem_below := fun _ he hends ↦
        mem_ringEdges_of_within_lower hrings he (within_iff.mpr hends)
      mem_above := fun _ he hends ↦
        swap_mem_ringEdges_of_within_upper hrings he (within_iff.mpr hends)
      ne := fun _ ↦ ne_of_mem_walls hn hrings }
  sizes f hf := by
    obtain ⟨i, -, rfl⟩ := List.mem_map.mp hf
    exact .inr rfl
  places f hf := by
    obtain ⟨i, hi, rfl⟩ := List.mem_map.mp hf
    have hi := List.mem_range.mp hi
    have hj := Nat.mod_lt (i + 1) (Nat.zero_lt_of_lt hi)
    simp only [OnRing, List.mem_cons, List.not_mem_nil, or_false, forall_eq_or_imp, forall_eq]
    omega

/-- Cutting the quads of a wall adds their diagonals, which lead from ring to ring. -/
theorem IsWall.cut {below above : List (ℤ × ℤ)} {faces : List Face}
    (h : IsWall n lower upper below above faces)
    (hpairs : Spans [] (faces.flatMap Face.diagonals))
    (hdisj : ∀ e ∈ faces.flatMap Face.edges, e ∉ faces.flatMap Face.diagonals)
    (hacross : ∀ e ∈ faces.flatMap Face.diagonals,
      e.1 ≠ e.2 ∧ ¬Within lower n e ∧ ¬Within upper n e) :
    IsWall n lower upper below above (faces.flatMap Face.triangles) where
  ne_nil := by
    obtain ⟨f, rest, rfl⟩ := List.exists_cons_of_ne_nil h.ne_nil
    rw [List.flatMap_cons]
    exact List.append_ne_nil_of_left_ne_nil f.triangles_ne_nil _
  joins := by
    simp only [within_iff] at hacross
    exact (h.joins.append_pairs hpairs hdisj hacross).perm
      (Face.edges_flatMap_triangles_perm faces).symm
  sizes f hf := by
    obtain ⟨g, hg, hf⟩ := List.mem_flatMap.mp hf
    exact .inl (Face.of_mem_triangles (h.sizes g hg) hf).1
  places f hf v hv := by
    obtain ⟨g, hg, hf⟩ := List.mem_flatMap.mp hf
    exact h.places g hg v ((Face.of_mem_triangles (h.sizes g hg) hf).2 v hv)

private theorem isWall_cut_walls (hn : 3 ≤ n) (hrings : lower + n ≤ upper ∨ upper + n ≤ lower) :
    IsWall n lower upper (ringEdges lower n) (ringEdges upper n)
      ((walls lower upper n).flatMap Face.triangles) :=
  (isWall_walls hn hrings).cut (spans_diagonals_walls hrings)
    (fun _ ↦ notMem_diagonals_walls hn hrings) fun _ ↦ ne_of_mem_diagonals_walls hrings

/-! ### Revolved walls -/

private theorem edges_quad_perm (a b c d : ℤ) :
    (Face.edges [a, d, c, b]).Perm ((Face.edges [a, b, c, d]).map Prod.swap) :=
  List.reverse_perm [(b, a), (c, b), (d, c), (a, d)]

theorem edges_revolvedWalls_perm (lower upper n : ℕ) :
    ((revolvedWalls lower upper n).flatMap Face.edges).Perm
      (((walls lower upper n).flatMap Face.edges).map Prod.swap) := by
  rw [revolvedWalls, walls, List.flatMap_map, List.flatMap_map, List.map_flatMap]
  exact List.Perm.flatMap_left _ fun i _ ↦ edges_quad_perm _ _ _ _

theorem diagonals_revolvedWalls (lower upper n : ℕ) :
    (revolvedWalls lower upper n).flatMap Face.diagonals
      = (walls lower upper n).flatMap Face.diagonals := by
  rw [revolvedWalls, walls, List.flatMap_map, List.flatMap_map]
  rfl

theorem isWall_revolvedWalls (hn : 3 ≤ n) (hrings : lower + n ≤ upper ∨ upper + n ≤ lower) :
    IsWall n lower upper ((ringEdges lower n).map Prod.swap) ((ringEdges upper n).map Prod.swap)
      (revolvedWalls lower upper n) where
  ne_nil := by
    rw [revolvedWalls, ne_eq, List.map_eq_nil_iff, List.range_eq_nil]
    omega
  joins := (isWall_walls hn hrings).joins.swap.perm (edges_revolvedWalls_perm lower upper n).symm
  sizes f hf := by
    obtain ⟨i, -, rfl⟩ := List.mem_map.mp hf
    exact .inr rfl
  places f hf := by
    obtain ⟨i, hi, rfl⟩ := List.mem_map.mp hf
    have hi := List.mem_range.mp hi
    have hj := Nat.mod_lt (i + 1) (Nat.zero_lt_of_lt hi)
    simp only [OnRing, List.mem_cons, List.not_mem_nil, or_false, forall_eq_or_imp, forall_eq]
    omega

private theorem isWall_cut_revolvedWalls (hn : 3 ≤ n)
    (hrings : lower + n ≤ upper ∨ upper + n ≤ lower) :
    IsWall n lower upper ((ringEdges lower n).map Prod.swap) ((ringEdges upper n).map Prod.swap)
      ((revolvedWalls lower upper n).flatMap Face.triangles) := by
  have hpairs := spans_diagonals_walls hrings
  refine (isWall_revolvedWalls hn hrings).cut ?_ ?_ ?_
  · rwa [diagonals_revolvedWalls]
  · intro e he
    rw [(edges_revolvedWalls_perm lower upper n).mem_iff, mem_map_swap_iff] at he
    rw [diagonals_revolvedWalls]
    exact fun hmem ↦ notMem_diagonals_walls hn hrings he
      (hpairs.swap_mem_of_notMem_border hmem List.not_mem_nil)
  · rw [diagonals_revolvedWalls]
    exact fun _ ↦ ne_of_mem_diagonals_walls hrings

/-! ### Caps -/

variable {t : Triangulation}

theorem isCap_cap (start : ℕ) (h : t.Fills n) :
    IsCap (OnRing start n) (n - 2) (ringEdges start n) (cap start t) where
  spans := spans_cap start h
  ne _ he := (within_of_mem_cap h he).2
  triangles _ := onRing_of_mem_cap h
  length_eq := by rw [cap, List.length_map, h.length_triangles]

theorem isCap_cap_reversed (start : ℕ) (h : t.Fills n) :
    IsCap (OnRing start n) (n - 2) ((ringEdges start n).map Prod.swap) (cap start t.reversed) where
  spans := spans_cap_reversed start h
  ne _ he := (within_of_mem_cap_reversed h he).2
  triangles _ := onRing_of_mem_cap_reversed h
  length_eq := by rw [cap_reversed, List.length_map, cap, List.length_map, h.length_triangles]

theorem fills_of_ofPlanarLoop [Scalar K] {rings : List (List (Point3 K))} {normal : Point3 K}
    (hrings : ∀ ring ∈ rings, ring.length = n) {ring : List (Point3 K)} (hring : ring ∈ rings)
    (h : Triangulation.ofPlanarLoop ring normal = .ok t) : t.Fills n := by
  have hfills := EarClipping.fills_of_ofLoop h
  rwa [Polyline.projected, List.length_map, hrings ring hring] at hfills

theorem headD_mem {α : Type} {l : List α} (hl : l ≠ []) (a : α) : l.headD a ∈ l := by
  cases l with
  | nil => exact absurd rfl hl
  | cons b l => exact List.mem_cons_self

theorem getLastD_mem {α : Type} {l : List α} (hl : l ≠ []) (a : α) : l.getLastD a ∈ l := by
  rw [List.getLastD_eq_getLast?, List.getLast?_eq_some_getLast hl]
  exact List.getLast_mem hl

/-! ## Tubes of quads -/

/-- A wall of `n` quads, which stays one when they are cut. -/
structure IsQuadWall (n lower upper : ℕ) (below above : List (ℤ × ℤ)) (faces : List Face) :
    Prop where
  wall : IsWall n lower upper below above faces
  cut : IsWall n lower upper below above (faces.flatMap Face.triangles)
  quads : ∀ f ∈ faces, f.length = 4
  length_eq : faces.length = n

theorem isQuadWall_walls (hn : 3 ≤ n) (hrings : lower + n ≤ upper ∨ upper + n ≤ lower) :
    IsQuadWall n lower upper (ringEdges lower n) (ringEdges upper n) (walls lower upper n) where
  wall := isWall_walls hn hrings
  cut := isWall_cut_walls hn hrings
  quads f hf := by
    obtain ⟨i, -, rfl⟩ := List.mem_map.mp hf
    rfl
  length_eq := by rw [walls, List.length_map, List.length_range]

theorem isQuadWall_revolvedWalls (hn : 3 ≤ n) (hrings : lower + n ≤ upper ∨ upper + n ≤ lower) :
    IsQuadWall n lower upper ((ringEdges lower n).map Prod.swap)
      ((ringEdges upper n).map Prod.swap) (revolvedWalls lower upper n) where
  wall := isWall_revolvedWalls hn hrings
  cut := isWall_cut_revolvedWalls hn hrings
  quads f hf := by
    obtain ⟨i, -, rfl⟩ := List.mem_map.mp hf
    rfl
  length_eq := by rw [revolvedWalls, List.length_map, List.length_range]

theorem isQuadWall_walls_row (hn : 3 ≤ n) (k : ℕ) :
    IsQuadWall n (k * n) ((k + 1) * n) (ringEdges (k * n) n) (ringEdges ((k + 1) * n) n)
      (walls (k * n) ((k + 1) * n) n) :=
  isQuadWall_walls hn (.inl (Nat.succ_mul k n).ge)

theorem isQuadWall_revolvedWalls_row (hn : 3 ≤ n) (k : ℕ) :
    IsQuadWall n (k * n) ((k + 1) * n) ((ringEdges (k * n) n).map Prod.swap)
      ((ringEdges ((k + 1) * n) n).map Prod.swap) (revolvedWalls (k * n) ((k + 1) * n) n) :=
  isQuadWall_revolvedWalls hn (.inl (Nat.succ_mul k n).ge)

variable {border : ℕ → List (ℤ × ℤ)} {wall : ℕ → List Face} {p : Polyhedron K} {m : ℕ}

theorem length_walls (hwall : ∀ k, (wall k).length = n) (m : ℕ) :
    ((List.range m).flatMap wall).length = m * n := by
  rw [List.length_flatMap, List.map_congr_left fun k _ ↦ hwall k, List.map_const',
    List.length_range, List.sum_replicate, smul_eq_mul]

/-- A tube of `m + 2` rings of `n` points, quads between them and a cap on either end. -/
theorem closedWith_of_capped
    (h : ∀ k, IsQuadWall n (k * n) ((k + 1) * n) (border k) (border (k + 1)) (wall k))
    {bottom top : List Face}
    (hbottom : IsCap (OnRing 0 n) (n - 2) ((border 0).map Prod.swap) bottom)
    (htop : IsCap (OnRing ((m + 1) * n) n) (n - 2) (border (m + 1)) top)
    (hpoints : p.points.length = (m + 1 + 1) * n)
    (hfaces : p.faces.Perm (bottom ++ top ++ (List.range (m + 1)).flatMap wall)) :
    p.ClosedWith ((m + 1 + 1) * n) ((m + 1) * n) (2 * (n - 2)) := by
  have hclosed := closed_and_closed_split_of_capped (fun k ↦ (h k).wall) (fun k ↦ (h k).cut)
    hbottom htop hpoints hfaces
  have hquads : ∀ f ∈ (List.range (m + 1)).flatMap wall, f.length = 4 := by
    intro f hf
    obtain ⟨k, -, hf⟩ := List.mem_flatMap.mp hf
    exact (h k).quads f hf
  have hwith := closedWith_of_caps hbottom htop hquads hfaces hclosed
  rwa [hpoints, length_walls fun k ↦ (h k).length_eq, ← Nat.two_mul] at hwith

/-- Rings of a profile in a row, with a reversed cap over the first and a cap over the last. -/
theorem closedWith_of_row {first last : Triangulation} (hfirst : first.Fills n)
    (hlast : last.Fills n) (hpoints : p.points.length = (m + 1 + 1) * n)
    (hfaces : p.faces.Perm (cap 0 first.reversed ++ cap ((m + 1) * n) last ++
      (List.range (m + 1)).flatMap fun k ↦ walls (k * n) ((k + 1) * n) n)) :
    p.ClosedWith ((m + 1 + 1) * n) ((m + 1) * n) (2 * (n - 2)) := by
  have hbottom : IsCap (OnRing 0 n) (n - 2) ((ringEdges (0 * n) n).map Prod.swap)
      (cap 0 first.reversed) := by
    rw [Nat.zero_mul]
    exact isCap_cap_reversed 0 hfirst
  exact closedWith_of_capped (isQuadWall_walls_row hfirst.three_le) hbottom (isCap_cap _ hlast)
    hpoints hfaces

/-- A tube of three or more rings of `n` points and quads between them, also from the last ring
to the first. -/
theorem closedWith_of_ring
    (h : ∀ k, IsQuadWall n (k * n) ((k + 1) * n) (border k) (border (k + 1)) (wall k))
    {seam : List Face} (hseam : IsQuadWall n ((m + 2) * n) 0 (border (m + 2)) (border 0) seam)
    (hpoints : p.points.length = (m + 2 + 1) * n)
    (hfaces : p.faces = (List.range (m + 2)).flatMap wall ++ seam) :
    p.ClosedWith ((m + 2 + 1) * n) ((m + 2 + 1) * n) 0 := by
  have hclosed := closed_and_closed_split_of_ring (fun k ↦ (h k).wall) (fun k ↦ (h k).cut)
    hseam.wall hseam.cut hpoints (.of_eq hfaces)
  have hlength : p.faces.length = (m + 2 + 1) * n := by
    rw [hfaces, List.length_append, length_walls fun k ↦ (h k).length_eq, hseam.length_eq,
      Nat.succ_mul (m + 2)]
  have hquads : ∀ f ∈ p.faces, f.length = 4 := by
    intro f hf
    rw [hfaces] at hf
    rcases List.mem_append.mp hf with hf | hf
    · obtain ⟨k, -, hf⟩ := List.mem_flatMap.mp hf
      exact (h k).quads f hf
    · exact hseam.quads f hf
  have hwith : p.ClosedWith p.points.length p.faces.length ([] : List Face).length :=
    closedWith_of_perm hquads (by simp) (by rw [List.nil_append]) hclosed
  rwa [hpoints, hlength] at hwith

/-- Three or more rings of a profile in a row, with a wall from the last to the first. -/
theorem closedWith_of_closedRow (hn : 3 ≤ n) (hpoints : p.points.length = (m + 2 + 1) * n)
    (hfaces : p.faces = ((List.range (m + 2)).flatMap fun k ↦ walls (k * n) ((k + 1) * n) n) ++
      walls ((m + 2) * n) 0 n) :
    p.ClosedWith ((m + 2 + 1) * n) ((m + 2 + 1) * n) 0 := by
  refine closedWith_of_ring (isQuadWall_walls_row hn) ?_ hpoints hfaces
  rw [Nat.zero_mul]
  refine isQuadWall_walls hn (.inr ?_)
  rw [Nat.succ_mul]
  omega

end Quads

end Polyhedron

end SolidModel
