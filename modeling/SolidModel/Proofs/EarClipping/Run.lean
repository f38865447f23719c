import Mathlib
import SolidModel.Proofs.Loop.Links

/-!
# Runs of the ear clipper

A successful run takes one ear after another off a ring until two vertices are left. `Clipping`
keeps of such a run what its results depend on: each ear is a vertex between its two neighbours
in the ring at that moment, it passed the test for ears, and the run goes on with the ring
without it. Which ear is taken is left open, so whatever is proved by induction on `Clipping`
holds for every order of clipping.

`clipping_of_ofLoop` is the one place where the search through the corners is opened.
-/

namespace SolidModel

variable {K : Type}

namespace Vertex

@[simp] theorem map_index_numbered (points : List (Point2 K)) :
    (numbered points).map Vertex.index = List.range points.length := by
  rw [numbered, List.map_map]
  refine List.ext_getElem (by simp) fun i _ _ ↦ ?_
  simp

@[simp] theorem map_point_numbered (points : List (Point2 K)) :
    (numbered points).map Vertex.point = points := by
  rw [numbered, List.map_map]
  refine List.ext_getElem (by simp) fun i _ _ ↦ ?_
  simp

theorem mem_numbered_iff {points : List (Point2 K)} {v : Vertex K} :
    v ∈ numbered points ↔ points[v.index]? = some v.point := by
  obtain ⟨i, p⟩ := v
  simp [numbered, List.mem_zipIdx_iff_getElem?]

theorem nodup_map_index_numbered (points : List (Point2 K)) :
    ((numbered points).map Vertex.index).Nodup := by
  rw [map_index_numbered]
  exact List.nodup_range

end Vertex

namespace EarClipping

/-! ## Cutting off one corner -/

/-- `rest` is `ring` without the tip of `ear`, where `ear` is a vertex of `ring` between its
neighbours. -/
structure CutsOff (ring : List (Vertex K)) (ear : Corner K) (rest : List (Vertex K)) : Prop where
  around : ∃ others, ring ~r ear.before :: ear.tip :: ear.after :: others ∧
    rest ~r ear.before :: ear.after :: others
  sublist : rest.Sublist ring

theorem CutsOff.length_eq {ring rest : List (Vertex K)} {ear : Corner K}
    (h : CutsOff ring ear rest) : ring.length = rest.length + 1 := by
  obtain ⟨others, hring, hrest⟩ := h.around
  rw [hring.perm.length_eq, hrest.perm.length_eq]
  simp only [List.length_cons]

theorem CutsOff.mem {ring rest : List (Vertex K)} {ear : Corner K} (h : CutsOff ring ear rest) :
    ear.before ∈ ring ∧ ear.tip ∈ ring ∧ ear.after ∈ ring := by
  obtain ⟨others, hring, -⟩ := h.around
  simp [hring.mem_iff]

theorem CutsOff.index_ne {ring rest : List (Vertex K)} {ear : Corner K} (h : CutsOff ring ear rest)
    (hnd : (ring.map Vertex.index).Nodup) {v : Vertex K} (hv : v ∈ rest) :
    v.index ≠ ear.tip.index := by
  obtain ⟨others, hring, hrest⟩ := h.around
  rw [(hring.map Vertex.index).nodup_iff] at hnd
  simp only [List.map_cons, List.nodup_cons, List.mem_cons, not_or] at hnd
  obtain ⟨⟨hpt, -⟩, ⟨htn, hto⟩, -⟩ := hnd
  simp only [hrest.mem_iff, List.mem_cons] at hv
  rcases hv with rfl | rfl | hv
  · exact hpt
  · exact Ne.symm htn
  · exact fun hvt ↦ hto (hvt ▸ List.mem_map_of_mem hv)

theorem get_corners (ring : List (Vertex K)) (i : ℕ) (hi : i < ring.length) :
    (Vertex.corners ring).get ⟨i, by rwa [Vertex.length_corners]⟩
      = ⟨ring.get ⟨(i + (ring.length - 1)) % ring.length, Nat.mod_lt _ (by omega)⟩, ring[i],
          ring.get ⟨(i + 1) % ring.length, Nat.mod_lt _ (by omega)⟩⟩ := by
  simp [Vertex.corners, Polyline.rotateLeft_eq_rotate, Polyline.rotateRight_one_eq_rotate,
    List.getElem_rotate]

/-- Numbers tell the vertices apart, so a vertex is found by its number. -/
private theorem eraseP_index_eq {ring : List (Vertex K)} (hnd : (ring.map Vertex.index).Nodup)
    {i : ℕ} (hi : i < ring.length) :
    ring.eraseP (fun v ↦ v.index == ring[i].index) = ring.take i ++ ring.drop (i + 1) := by
  obtain ⟨l, t, r, rfl, rfl⟩ : ∃ l t r, ring = l ++ t :: r ∧ l.length = i :=
    ⟨ring.take i, ring[i], ring.drop (i + 1),
      by rw [List.getElem_cons_drop, List.take_append_drop], by simp [hi.le]⟩
  rw [List.map_append, List.map_cons, List.nodup_append] at hnd
  have hl : ∀ v ∈ l, ¬(v.index == t.index) = true := by
    intro v hv hvt
    exact hnd.2.2 _ (List.mem_map_of_mem hv) _ List.mem_cons_self (by simpa using hvt)
  simp [List.eraseP_append_right _ hl]

/-- A corner of a ring stands in it between its neighbours, and erasing its tip by its number
cuts it off. -/
theorem cutsOff_of_mem_corners {ring : List (Vertex K)} {ear : Corner K}
    (hlen : 3 ≤ ring.length) (hnd : (ring.map Vertex.index).Nodup)
    (h : ear ∈ Vertex.corners ring) :
    CutsOff ring ear (ring.eraseP fun v ↦ v.index == ear.tip.index) := by
  obtain ⟨⟨i, hi⟩, rfl⟩ := List.mem_iff_get.mp h
  rw [Vertex.length_corners] at hi
  obtain ⟨others, hothers⟩ := Polyline.exists_drop_append_take_eq ring hi hlen
  have hring : ring = ring.take i ++ ring[i] :: ring.drop (i + 1) := by
    rw [List.getElem_cons_drop, List.take_append_drop]
  rw [get_corners ring i hi, eraseP_index_eq hnd hi]
  refine ⟨⟨others, ?_, ?_⟩, ?_⟩
  · have hrot : ring ~r ring[i] :: ring.drop (i + 1) ++ ring.take i := by
      conv_lhs => rw [hring]
      exact List.isRotated_append
    rw [List.cons_append, hothers] at hrot
    exact hrot.trans (List.isRotated_concat _ (_ :: _ :: others))
  · refine List.isRotated_append.trans ?_
    rw [hothers]
    exact List.isRotated_concat _ (_ :: others)
  · conv_rhs => rw [hring]
    exact (List.Sublist.refl _).append (List.sublist_cons_self _ _)

/-! ## Whole runs -/

variable [Scalar K]

/-- The ears that a run takes off a ring, in order, until two vertices are left. -/
inductive Clipping : List (Vertex K) → List (Corner K) → Prop
  /-- Two vertices are left. -/
  | pair {ring} (hring : ring.length = 2) : Clipping ring []
  /-- An ear is taken off, and the run goes on with the rest. -/
  | ear {ring ear rest ears} (hcut : CutsOff ring ear rest) (hear : ear.isEar ring = true)
      (hrest : Clipping rest ears) : Clipping ring (ear :: ears)

private theorem clipping_of_clip {count : ℕ} {ring : List (Vertex K)} {ears : List (Corner K)}
    (hlen : ring.length = count + 2) (hnd : (ring.map Vertex.index).Nodup)
    (h : clip count ring = .ok ears) : Clipping ring ears := by
  induction count generalizing ring ears with
  | zero =>
    simp only [clip, Except.ok.injEq] at h
    subst h
    exact .pair hlen
  | succ count ih =>
    simp only [clip] at h
    split at h
    · cases h
    · rename_i ear hfind
      cases hr : clip count (ring.eraseP fun v ↦ v.index == ear.tip.index) with
      | error fault => simp [hr, bind, Except.bind] at h
      | ok rest =>
        simp only [hr, bind, Except.bind, pure, Except.pure, Except.ok.injEq] at h
        subst h
        have hcut : CutsOff ring ear _ :=
          cutsOff_of_mem_corners (by omega) hnd (List.mem_of_find?_eq_some hfind)
        have hrest := hcut.length_eq
        refine .ear hcut (List.find?_some hfind) (ih (by omega) ?_ hr)
        exact hnd.sublist (hcut.sublist.map _)

theorem clipping_of_ofLoop {loop : List (Point2 K)} {t : Triangulation}
    (h : Triangulation.ofLoop loop = .ok t) :
    3 ≤ loop.length ∧ ∃ ears, Clipping (Vertex.numbered loop) ears ∧ t = ofEars ears := by
  rw [Triangulation.ofLoop] at h
  cases he : ears (Vertex.numbered loop) with
  | error fault => simp [he, Except.map] at h
  | ok found =>
    simp only [he, Except.map, Except.ok.injEq] at h
    rw [ears] at he
    split at he
    next first second third others hcorners =>
      have hlen := congrArg List.length hcorners
      simp only [Vertex.length_corners, Vertex.length_numbered, List.length_cons] at hlen
      split at he
      · cases he
      · refine ⟨by omega, found, clipping_of_clip ?_ (Vertex.nodup_map_index_numbered loop) he,
          h.symm⟩
        rw [Vertex.length_numbered]
        omega
    next => cases he

namespace Clipping

variable {ring : List (Vertex K)} {ears : List (Corner K)}

theorem length_eq (h : Clipping ring ears) : ring.length = ears.length + 2 := by
  induction h with
  | pair hring => simpa using hring
  | ear hcut _ _ ih => rw [hcut.length_eq, ih, List.length_cons]

theorem mem_ring (h : Clipping ring ears) {c : Corner K} (hc : c ∈ ears) :
    c.before ∈ ring ∧ c.tip ∈ ring ∧ c.after ∈ ring := by
  induction h with
  | pair => cases hc
  | ear hcut _ _ ih =>
    rcases List.mem_cons.mp hc with rfl | hc
    · exact hcut.mem
    · obtain ⟨hb, ht, ha⟩ := ih hc
      exact ⟨hcut.sublist.subset hb, hcut.sublist.subset ht, hcut.sublist.subset ha⟩

end Clipping

end EarClipping

end SolidModel
