import Mathlib
import SolidModel.Proofs.Loop.Links

/-!
# Edges that span a border

A patch of a surface is a list of directed edges, those around its faces. It *spans* a border if
it runs along each edge of the border once and never against it, and along each other edge once
in both directions. A surface is closed if it spans the empty border.

Two operations build every surface here. An ear `p, t, n` is put back onto a patch whose border
runs from `p` straight to `n`: the edge `(p, n)` turns from border into diagonal, its way back
comes with the ear, and the two new border edges end at a vertex that no other face has. And two
patches are glued along those border edges that they pass in opposite directions.
-/

namespace SolidModel

variable {α : Type} [DecidableEq α]

/-- The directed edges run along the border once, never against it, and along each of the other
edges once in both directions. -/
structure Spans (border edges : List (α × α)) : Prop where
  along : ∀ e ∈ border, edges.count e = 1 ∧ edges.count e.swap = 0
  across : ∀ e ∈ edges, e ∉ border → edges.count e = 1 ∧ edges.count e.swap = 1

omit [DecidableEq α] in
theorem mem_map_swap_iff {l : List (α × α)} {e : α × α} : e ∈ l.map Prod.swap ↔ e.swap ∈ l := by
  conv_lhs => rw [← Prod.swap_swap e]
  exact List.mem_map_of_injective Prod.swap_injective

namespace Spans

theorem of_mem_iff {border border' edges : List (α × α)} (h : Spans border edges)
    (hb : ∀ e, e ∈ border' ↔ e ∈ border) : Spans border' edges where
  along e he := h.along e ((hb e).mp he)
  across e he hne := h.across e he fun hmem ↦ hne ((hb e).mpr hmem)

theorem triangle {p t n : α} (hnd : [p, t, n].Nodup) :
    Spans (Polyline.cyclicPairs [p, t, n]) [(p, t), (t, n), (n, p)] := by
  simp only [List.nodup_cons, List.mem_cons, List.not_mem_nil, or_false, not_or,
    List.nodup_nil, and_true, not_false_eq_true] at hnd
  obtain ⟨⟨hpt, hpn⟩, htn⟩ := hnd
  have hcycle : Polyline.cyclicPairs [p, t, n] = [(p, t), (t, n), (n, p)] := rfl
  rw [hcycle]
  refine ⟨?_, fun e he hne ↦ absurd he hne⟩
  intro e he
  simp only [List.mem_cons, List.not_mem_nil, or_false] at he
  rcases he with rfl | rfl | rfl <;>
    simp [hpt, hpn, htn, Ne.symm hpt, Ne.symm hpn, Ne.symm htn]

/-! ### Patches without repetitions -/

theorem of_nodup {border edges : List (α × α)} (hnd : edges.Nodup)
    (halong : ∀ e ∈ border, e ∈ edges ∧ e.swap ∉ edges)
    (hacross : ∀ e ∈ edges, e ∉ border → e.swap ∈ edges) : Spans border edges where
  along e he :=
    ⟨List.count_eq_one_of_mem hnd (halong e he).1, List.count_eq_zero.mpr (halong e he).2⟩
  across e he hne :=
    ⟨List.count_eq_one_of_mem hnd he, List.count_eq_one_of_mem hnd (hacross e he hne)⟩

theorem mem_of_mem_border {border edges : List (α × α)} (h : Spans border edges) {e : α × α}
    (he : e ∈ border) : e ∈ edges :=
  List.count_pos_iff.mp (by rw [(h.along e he).1]; exact Nat.one_pos)

theorem swap_notMem_of_mem_border {border edges : List (α × α)} (h : Spans border edges)
    {e : α × α} (he : e ∈ border) : e.swap ∉ edges :=
  List.count_eq_zero.mp (h.along e he).2

theorem swap_mem_of_notMem_border {border edges : List (α × α)} (h : Spans border edges)
    {e : α × α} (he : e ∈ edges) (hne : e ∉ border) : e.swap ∈ edges :=
  List.count_pos_iff.mp (by rw [(h.across e he hne).2]; exact Nat.one_pos)

theorem nodup {border edges : List (α × α)} (h : Spans border edges) : edges.Nodup := by
  rw [List.nodup_iff_count_le_one]
  intro e
  by_cases he : e ∈ edges
  · by_cases hb : e ∈ border
    · exact (h.along e hb).1.le
    · exact (h.across e he hb).1.le
  · rw [List.count_eq_zero.mpr he]
    exact Nat.zero_le 1

theorem perm {border edges edges' : List (α × α)} (h : Spans border edges)
    (hp : edges.Perm edges') : Spans border edges' where
  along e he := by
    rw [← hp.count_eq, ← hp.count_eq]
    exact h.along e he
  across e he hne := by
    rw [← hp.count_eq, ← hp.count_eq]
    exact h.across e (hp.mem_iff.mpr he) hne

/-- **An ear is put back.** No edge so far has the tip `t`. -/
theorem cons_ear {p t n : α} {others : List α} {edges : List (α × α)}
    (hnd : (p :: t :: n :: others).Nodup)
    (htip : ∀ e ∈ edges, e.1 ≠ t ∧ e.2 ≠ t)
    (h : Spans (Polyline.cyclicPairs (p :: n :: others)) edges) :
    Spans (Polyline.cyclicPairs (p :: t :: n :: others))
      ((p, t) :: (t, n) :: (n, p) :: edges) := by
  simp only [List.nodup_cons, List.mem_cons, not_or] at hnd
  obtain ⟨⟨hpt, hpn, hpo⟩, ⟨htn, hto⟩, hno, -⟩ := hnd
  have hold : Polyline.cyclicPairs (p :: n :: others)
      = (p, n) :: Polyline.links (n :: others ++ [p]) := Polyline.cyclicPairs_cons _ _
  have hnew : Polyline.cyclicPairs (p :: t :: n :: others)
      = (p, t) :: (t, n) :: Polyline.links (n :: others ++ [p]) := Polyline.cyclicPairs_cons _ _
  rw [hold] at h
  rw [hnew]
  have hmem : (p, n) ∈ edges := h.mem_of_mem_border List.mem_cons_self
  have hback : (n, p) ∉ edges := h.swap_notMem_of_mem_border (e := (p, n)) List.mem_cons_self
  have hto1 : ∀ u, (u, t) ∉ edges := fun u hu ↦ (htip _ hu).2 rfl
  have hto2 : ∀ u, (t, u) ∉ edges := fun u hu ↦ (htip _ hu).1 rfl
  refine of_nodup ?_ ?_ ?_
  · simp only [List.nodup_cons, List.mem_cons, Prod.mk.injEq, not_or, not_and]
    exact ⟨⟨fun h ↦ absurd h hpt, fun h ↦ absurd h hpn, hto1 p⟩,
      ⟨fun h ↦ absurd h htn, hto2 n⟩, hback, h.nodup⟩
  · intro e he
    simp only [List.mem_cons] at he
    rcases he with rfl | rfl | he
    · simp [hto2, Ne.symm hpt, hpn, htn]
    · simp [hto1, htn, Ne.symm htn, Ne.symm hpn, Ne.symm hpt]
    · -- an edge of the old border other than the base
      have hborder := List.mem_cons_of_mem (p, n) he
      have hedge := h.mem_of_mem_border hborder
      have h1 : e.1 ≠ p := by
        have := Polyline.fst_mem_of_mem_links_concat he
        rintro rfl
        exact (List.mem_cons.mp this).elim hpn hpo
      refine ⟨by simp [hedge], ?_⟩
      simp only [List.mem_cons, Prod.ext_iff, Prod.fst_swap, Prod.snd_swap, not_or, not_and]
      exact ⟨fun _ ↦ (htip e hedge).1, fun h ↦ absurd h (htip e hedge).2, fun _ ↦ h1,
        h.swap_notMem_of_mem_border hborder⟩
  · intro e he hne
    simp only [List.mem_cons, not_or] at he hne ⊢
    obtain ⟨hne1, hne2, hne3⟩ := hne
    rcases he with he | he | rfl | he
    · exact absurd he hne1
    · exact absurd he hne2
    · exact .inr (.inr (.inr hmem))
    · by_cases hbase : e = (p, n)
      · exact .inr (.inr (.inl (by rw [hbase]; rfl)))
      · refine .inr (.inr (.inr (h.swap_mem_of_notMem_border he ?_)))
        rw [List.mem_cons, not_or]
        exact ⟨hbase, hne3⟩

/-- Renaming the vertices of a patch keeps it one, if different vertices get different names. -/
theorem map_of_injOn {β : Type} [DecidableEq β] {border edges : List (α × α)}
    (h : Spans border edges) {f : α → β} {s : Set α} (hf : Set.InjOn f s)
    (hs : ∀ e ∈ edges, e.1 ∈ s ∧ e.2 ∈ s) :
    Spans (border.map (Prod.map f f)) (edges.map (Prod.map f f)) := by
  have hback : ∀ d ∈ edges, ∀ e ∈ edges, Prod.map f f d = Prod.map f f e → d = e := by
    intro d hd e he hde
    rw [Prod.ext_iff] at hde
    exact Prod.ext (hf (hs d hd).1 (hs e he).1 hde.1) (hf (hs d hd).2 (hs e he).2 hde.2)
  refine of_nodup (h.nodup.map_on hback) ?_ ?_
  · intro e he
    obtain ⟨d, hd, rfl⟩ := List.mem_map.mp he
    have hmem := h.mem_of_mem_border hd
    refine ⟨List.mem_map_of_mem hmem, fun hswap ↦ ?_⟩
    obtain ⟨c, hc, hcd⟩ := List.mem_map.mp hswap
    rw [Prod.ext_iff] at hcd
    have : c = d.swap := Prod.ext (hf (hs c hc).1 (hs d hmem).2 hcd.1)
      (hf (hs c hc).2 (hs d hmem).1 hcd.2)
    exact h.swap_notMem_of_mem_border hd (this ▸ hc)
  · intro e he hne
    obtain ⟨d, hd, rfl⟩ := List.mem_map.mp he
    exact List.mem_map_of_mem (f := Prod.map f f)
      (h.swap_mem_of_notMem_border hd fun hb ↦ hne (List.mem_map_of_mem hb))

theorem map {β : Type} [DecidableEq β] {border edges : List (α × α)} (h : Spans border edges)
    {f : α → β} (hf : Function.Injective f) :
    Spans (border.map (Prod.map f f)) (edges.map (Prod.map f f)) :=
  h.map_of_injOn hf.injOn fun _ _ ↦ ⟨Set.mem_univ _, Set.mem_univ _⟩

theorem swap {border edges : List (α × α)} (h : Spans border edges) :
    Spans (border.map Prod.swap) (edges.map Prod.swap) := by
  refine of_nodup (h.nodup.map Prod.swap_injective) ?_ ?_
  · intro e he
    obtain ⟨d, hd, rfl⟩ := List.mem_map.mp he
    refine ⟨List.mem_map_of_mem (h.mem_of_mem_border hd), ?_⟩
    rw [List.mem_map_of_injective Prod.swap_injective]
    exact h.swap_notMem_of_mem_border hd
  · intro e he hne
    obtain ⟨d, hd, rfl⟩ := List.mem_map.mp he
    exact List.mem_map_of_mem
      (h.swap_mem_of_notMem_border hd fun hb ↦ hne (List.mem_map_of_mem hb))

/-- **Gluing.** Two patches with no edge in common, where an edge of one runs against an edge of
the other only if both are border. Such edges are inside what they make up together. -/
theorem append {border₁ border₂ border edges₁ edges₂ : List (α × α)} (h₁ : Spans border₁ edges₁)
    (h₂ : Spans border₂ edges₂) (hdisj : ∀ e ∈ edges₁, e ∉ edges₂)
    (hglue : ∀ e ∈ edges₁, e.swap ∈ edges₂ → e ∈ border₁ ∧ e.swap ∈ border₂)
    (hborder : ∀ e, e ∈ border ↔
      (e ∈ border₁ ∧ e.swap ∉ border₂) ∨ (e ∈ border₂ ∧ e.swap ∉ border₁)) :
    Spans border (edges₁ ++ edges₂) := by
  have hglue' : ∀ e ∈ edges₂, e.swap ∈ edges₁ → e ∈ border₂ ∧ e.swap ∈ border₁ := by
    intro e he hs
    have := hglue e.swap hs (by rwa [Prod.swap_swap])
    rw [Prod.swap_swap] at this
    exact this.symm
  refine of_nodup (List.nodup_append.mpr ⟨h₁.nodup, h₂.nodup, ?_⟩) ?_ ?_
  · rintro a ha b hb rfl
    exact hdisj a ha hb
  · intro e he
    rw [List.mem_append, List.mem_append, not_or]
    rcases (hborder e).mp he with ⟨hb, hs⟩ | ⟨hb, hs⟩
    · have hmem := h₁.mem_of_mem_border hb
      exact ⟨.inl hmem, h₁.swap_notMem_of_mem_border hb, fun h ↦ hs (hglue e hmem h).2⟩
    · have hmem := h₂.mem_of_mem_border hb
      exact ⟨.inr hmem, fun h ↦ hs (hglue' e hmem h).2, h₂.swap_notMem_of_mem_border hb⟩
  · intro e he hne
    rw [hborder, not_or, not_and_not_right, not_and_not_right] at hne
    rw [List.mem_append] at he ⊢
    rcases he with he | he
    · by_cases hb : e ∈ border₁
      · exact .inr (h₂.mem_of_mem_border (hne.1 hb))
      · exact .inl (h₁.swap_mem_of_notMem_border he hb)
    · by_cases hb : e ∈ border₂
      · exact .inl (h₁.mem_of_mem_border (hne.2 hb))
      · exact .inr (h₂.swap_mem_of_notMem_border he hb)

/-- Two patches that meet along `shared`, which the second passes in its direction and the first
against it; `shared` is inside what they make up together. -/
theorem glue {border₁ shared border₂ edges₁ edges₂ : List (α × α)}
    (h₁ : Spans (border₁ ++ shared.map Prod.swap) edges₁) (h₂ : Spans (shared ++ border₂) edges₂)
    (hmeet : ∀ e ∈ edges₂, e ∈ edges₁ ∨ e.swap ∈ edges₁ → e ∈ shared)
    (hborder₁ : ∀ e ∈ border₁, e.swap ∉ shared) (hborder₂ : ∀ e ∈ border₂, e ∉ shared) :
    Spans (border₁ ++ border₂) (edges₁ ++ edges₂) := by
  refine h₁.append h₂ ?_ ?_ fun e ↦ ?_
  · intro e he₁ he₂
    have hs : e.swap ∈ border₁ ++ shared.map Prod.swap :=
      List.mem_append_right _ (List.mem_map_of_mem (hmeet e he₂ (.inl he₁)))
    exact h₁.swap_notMem_of_mem_border hs (by rwa [Prod.swap_swap])
  · intro e he₁ he₂
    have hs := hmeet _ he₂ (.inr (by rwa [Prod.swap_swap]))
    exact ⟨List.mem_append_right _ (mem_map_swap_iff.mpr hs), List.mem_append_left _ hs⟩
  · simp only [List.mem_append, mem_map_swap_iff, Prod.swap_swap, not_or]
    constructor
    · rintro (he | he)
      · refine .inl ⟨.inl he, hborder₁ e he, fun hs ↦ hborder₁ e he (hmeet _ ?_ (.inr ?_))⟩
        · exact h₂.mem_of_mem_border (List.mem_append_right _ hs)
        · rw [Prod.swap_swap]
          exact h₁.mem_of_mem_border (List.mem_append_left _ he)
      · refine .inr ⟨.inr he, fun hs ↦ hborder₂ e he (hmeet e ?_ (.inr ?_)), hborder₂ e he⟩
        · exact h₂.mem_of_mem_border (List.mem_append_right _ he)
        · exact h₁.mem_of_mem_border (List.mem_append_left _ hs)
    · rintro (⟨he | he, hs, -⟩ | ⟨he | he, -, hs⟩)
      · exact .inl he
      · exact absurd he hs
      · exact absurd he hs
      · exact .inr he

/-- Two patches with the same border, passed in opposite directions, close each other. -/
theorem close {border edges₁ edges₂ : List (α × α)} (h₁ : Spans (border.map Prod.swap) edges₁)
    (h₂ : Spans border edges₂) (hmeet : ∀ e ∈ edges₂, e ∈ edges₁ ∨ e.swap ∈ edges₁ → e ∈ border) :
    Spans [] (edges₁ ++ edges₂) := by
  have h₂' : Spans (border ++ []) edges₂ := by rwa [List.append_nil]
  have hglue : Spans ([] ++ []) (edges₁ ++ edges₂) :=
    glue h₁ h₂' hmeet (fun _ he ↦ absurd he List.not_mem_nil) fun _ he ↦ absurd he List.not_mem_nil
  exact hglue

theorem append_of_apart {border₁ border₂ edges₁ edges₂ : List (α × α)} (h₁ : Spans border₁ edges₁)
    (h₂ : Spans border₂ edges₂) (hapart : ∀ e ∈ edges₂, e ∉ edges₁ ∧ e.swap ∉ edges₁) :
    Spans (border₁ ++ border₂) (edges₁ ++ edges₂) := by
  have h₁' : Spans (border₁ ++ ([] : List (α × α)).map Prod.swap) edges₁ := by
    rwa [List.map_nil, List.append_nil]
  refine glue h₁' h₂ ?_ (fun _ _ ↦ List.not_mem_nil) fun _ _ ↦ List.not_mem_nil
  intro e he hmeet
  exact absurd hmeet (not_or.mpr (hapart e he))

theorem flatMap_of_pairwise {ι : Type} {pieces : List ι} {border edges : ι → List (α × α)}
    (h : ∀ i ∈ pieces, Spans (border i) (edges i))
    (hapart : pieces.Pairwise fun i j ↦ ∀ e ∈ edges j, e ∉ edges i ∧ e.swap ∉ edges i) :
    Spans (pieces.flatMap border) (pieces.flatMap edges) := by
  induction pieces with
  | nil => exact ⟨by simp, by simp⟩
  | cons i pieces ih =>
    rw [List.forall_mem_cons] at h
    rw [List.pairwise_cons] at hapart
    refine h.1.append_of_apart (ih h.2 hapart.2) fun e he ↦ ?_
    obtain ⟨j, hj, he⟩ := List.mem_flatMap.mp he
    exact hapart.1 j hj e he

theorem append_pairs {border edges pairs : List (α × α)} (h : Spans border edges)
    (hpairs : Spans [] pairs) (hdisj : ∀ e ∈ edges, e ∉ pairs) : Spans border (edges ++ pairs) := by
  have hspans := h.append_of_apart hpairs fun e he ↦
    ⟨fun hmem ↦ hdisj e hmem he, fun hmem ↦
      hdisj _ hmem (hpairs.swap_mem_of_notMem_border he List.not_mem_nil)⟩
  rwa [List.append_nil] at hspans

end Spans

end SolidModel
