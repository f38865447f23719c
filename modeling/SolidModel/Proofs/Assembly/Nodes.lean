import Mathlib
import SolidModel.Workbench
import SolidModel.Proofs.Assembly.Calls

/-!
# The nodes of a solid

A path of positions leads to a node of a solid, see `Solid.part?`. Two things are said here about
all nodes at once. A solid is founded if each of its finalized combinations has parts: this is what
`Combination.finalize` asks for, and it asks no more, so parts that are combinations without parts
will do. And one solid keeps the finalized nodes of another if a path to one of them leads to one
in the first solid too.

A founded solid can be without any polyhedron. Then it is vacant: what it comes down to are
combinations without parts, none of which is finalized.
-/

namespace SolidModel

variable {K : Type}

theorem forall_mem_modify {α : Type} {P : α → Prop} {l : List α} (h : ∀ a ∈ l, P a) (i : ℕ)
    {f : α → α} (hf : ∀ a, P a → P (f a)) : ∀ a ∈ l.modify i f, P a := by
  intro b hb
  obtain ⟨j, hj⟩ := List.getElem?_of_mem hb
  rw [List.getElem?_modify, Option.map_eq_map, Option.map_eq_some_iff] at hj
  obtain ⟨a, ha, rfl⟩ := hj
  have ha := h a (List.mem_of_getElem? ha)
  split
  · exact hf a ha
  · exact ha

namespace Combination

theorem toSolid_injective : Function.Injective (toSolid : Combination K → Solid K) := by
  rintro ⟨⟩ ⟨⟩ h
  simpa [toSolid] using h

theorem placed_toSolid (f : Point3 K → Point3 K) (c : Combination K) :
    c.toSolid.placed f = (c.placed f).toSolid := by
  simp only [toSolid, placed, Solid.placed, Solid.mapLeaves, Solid.mapLeavesOf_eq_map]

end Combination

namespace Solid

/-! ## Paths -/

@[simp] theorem part?_nil (s : Solid K) : s.part? [] = some s := by
  cases s <;> rfl

theorem part?_cons (c : Combination K) (i : ℕ) (path : List ℕ) :
    c.toSolid.part? (i :: path) = c.parts[i]?.bind (·.part? path) := by
  simp only [Combination.toSolid, part?]
  cases c.parts[i]? <;> rfl

theorem polyhedron_or_toSolid (s : Solid K) :
    (∃ p, s = .polyhedron p) ∨ ∃ c : Combination K, s = c.toSolid := by
  cases s with
  | polyhedron p => exact .inl ⟨p, rfl⟩
  | combination operation finalized parts => exact .inr ⟨⟨operation, finalized, parts⟩, rfl⟩

theorem part?_append (s : Solid K) (path rest : List ℕ) :
    s.part? (path ++ rest) = (s.part? path).bind (·.part? rest) := by
  induction path generalizing s with
  | nil => simp
  | cons i path ih =>
    obtain ⟨p, rfl⟩ | ⟨c, rfl⟩ := s.polyhedron_or_toSolid
    · rfl
    · rw [List.cons_append, part?_cons, part?_cons]
      cases c.parts[i]? with
      | none => rfl
      | some part => exact ih part

theorem part?_placed (f : Point3 K → Point3 K) (s : Solid K) (path : List ℕ) :
    (s.placed f).part? path = (s.part? path).map (·.placed f) := by
  induction path generalizing s with
  | nil => simp
  | cons i path ih =>
    obtain ⟨p, rfl⟩ | ⟨c, rfl⟩ := s.polyhedron_or_toSolid
    · rfl
    · rw [Combination.placed_toSolid, part?_cons, part?_cons, Combination.parts_placed,
        List.getElem?_map]
      cases c.parts[i]? with
      | none => rfl
      | some part => exact ih part

theorem replacePart_cons (part : Solid K) (i : ℕ) (path : List ℕ) (c : Combination K) :
    replacePart part (i :: path) c.toSolid
      = { c with parts := c.parts.modify i (replacePart part path) }.toSolid := rfl

/-! ## Finalized nodes have parts -/

/-- Every node that is finalized has parts. -/
def Founded (s : Solid K) : Prop :=
  ∀ path (c : Combination K), s.part? path = some c.toSolid → c.Founded

theorem founded_polyhedron (p : Polyhedron K) : (polyhedron p).Founded := by
  intro path c h
  cases path <;> cases h

theorem founded_toSolid_iff {c : Combination K} :
    c.toSolid.Founded ↔ c.Founded ∧ ∀ part ∈ c.parts, part.Founded := by
  constructor
  · intro h
    refine ⟨h [] c (part?_nil _), fun part hpart path d hd ↦ ?_⟩
    obtain ⟨i, hi⟩ := List.getElem?_of_mem hpart
    exact h (i :: path) d (by rw [part?_cons, hi]; exact hd)
  · rintro ⟨hc, hparts⟩ path d hd
    cases path with
    | nil =>
      rw [part?_nil, Option.some_inj] at hd
      rwa [← Combination.toSolid_injective hd]
    | cons i path =>
      rw [part?_cons, Option.bind_eq_some_iff] at hd
      obtain ⟨part, hpart, hd⟩ := hd
      exact hparts part (List.mem_of_getElem? hpart) path d hd

theorem Founded.of_part? {s part : Solid K} (h : s.Founded) {path : List ℕ}
    (hpart : s.part? path = some part) : part.Founded := by
  intro rest c hc
  refine h (path ++ rest) c ?_
  rw [part?_append, hpart]
  exact hc

theorem Founded.placed {s : Solid K} (h : s.Founded) (f : Point3 K → Point3 K) :
    (s.placed f).Founded := by
  intro path c hc hfinalized
  rw [part?_placed, Option.map_eq_some_iff] at hc
  obtain ⟨part, hpart, hplaced⟩ := hc
  obtain ⟨p, rfl⟩ | ⟨d, rfl⟩ := part.polyhedron_or_toSolid
  · cases hplaced
  · rw [Combination.placed_toSolid] at hplaced
    obtain rfl := Combination.toSolid_injective hplaced
    simpa using h path d hpart hfinalized

theorem Founded.replacePart {s part : Solid K} (hs : s.Founded) (hpart : part.Founded)
    (path : List ℕ) : (replacePart part path s).Founded := by
  induction path generalizing s with
  | nil => exact hpart
  | cons i path ih =>
    obtain ⟨p, rfl⟩ | ⟨c, rfl⟩ := s.polyhedron_or_toSolid
    · exact hs
    · obtain ⟨hc, hparts⟩ := founded_toSolid_iff.mp hs
      rw [replacePart_cons, founded_toSolid_iff]
      exact ⟨fun hfinalized ↦ by simpa using hc hfinalized,
        forall_mem_modify hparts i fun t ht ↦ ih ht⟩

/-! ## Finalized nodes stay -/

/-- What is finalized in the first solid is so in the second, in the same place. -/
def Keeps (s t : Solid K) : Prop :=
  ∀ path (c : Combination K), s.part? path = some c.toSolid → c.finalized = true →
    ∃ d : Combination K, t.part? path = some d.toSolid ∧ d.finalized = true

theorem Keeps.refl (s : Solid K) : s.Keeps s := fun _ c hc h ↦ ⟨c, hc, h⟩

theorem keeps_placed (f : Point3 K → Point3 K) (s : Solid K) : s.Keeps (s.placed f) := by
  intro path c hc h
  refine ⟨c.placed f, ?_, h⟩
  rw [part?_placed, hc, Option.map_some, Combination.placed_toSolid]

/-- Every solid of the first list is kept by the one at its position in the second. -/
def KeepsAll (parts others : List (Solid K)) : Prop :=
  ∀ (i : ℕ) (s : Solid K), parts[i]? = some s → ∃ t, others[i]? = some t ∧ s.Keeps t

theorem KeepsAll.refl (parts : List (Solid K)) : KeepsAll parts parts :=
  fun _ s hs ↦ ⟨s, hs, .refl s⟩

theorem keepsAll_append (parts more : List (Solid K)) : KeepsAll parts (parts ++ more) := by
  intro i s hs
  refine ⟨s, ?_, .refl s⟩
  rw [← hs]
  exact List.getElem?_append_left (List.getElem?_eq_some_iff.mp hs).1

theorem keepsAll_modify {parts : List (Solid K)} {i : ℕ} {s : Solid K} {f : Solid K → Solid K}
    (hs : parts[i]? = some s) (h : s.Keeps (f s)) : KeepsAll parts (parts.modify i f) := by
  intro j t ht
  by_cases hij : i = j
  · subst hij
    rw [hs, Option.some_inj] at ht
    subst ht
    exact ⟨f s, by simp [hs], h⟩
  · exact ⟨t, by simp [hij, ht], .refl t⟩

/-- A combination that stays finalized and keeps its parts keeps everything that is finalized. -/
theorem keeps_toSolid {c d : Combination K} (h : c.finalized = true → d.finalized = true)
    (hparts : KeepsAll c.parts d.parts) : c.toSolid.Keeps d.toSolid := by
  intro path e he hfinalized
  cases path with
  | nil =>
    rw [part?_nil, Option.some_inj] at he
    rw [← Combination.toSolid_injective he] at hfinalized
    exact ⟨d, part?_nil _, h hfinalized⟩
  | cons i path =>
    rw [part?_cons, Option.bind_eq_some_iff] at he
    obtain ⟨part, hpart, he⟩ := he
    obtain ⟨t, ht, hkeeps⟩ := hparts i part hpart
    rw [part?_cons, ht]
    exact hkeeps path e he hfinalized

theorem keeps_replacePart {s part t : Solid K} {path : List ℕ} (h : s.part? path = some part)
    (hkeeps : part.Keeps t) : s.Keeps (replacePart t path s) := by
  induction path generalizing s with
  | nil =>
    rw [part?_nil, Option.some_inj] at h
    rwa [h]
  | cons i path ih =>
    obtain ⟨p, rfl⟩ | ⟨c, rfl⟩ := s.polyhedron_or_toSolid
    · exact .refl _
    · rw [part?_cons, Option.bind_eq_some_iff] at h
      obtain ⟨next, hnext, h⟩ := h
      rw [replacePart_cons]
      exact keeps_toSolid id (keepsAll_modify hnext (ih h))

/-! ## Solids without polyhedra -/

/-- A combination without parts that is not finalized, or one of nothing but such solids. -/
inductive Vacant : Solid K → Prop where
  | bare (operation : Operation) : Vacant (.combination operation false [])
  | hollow (operation : Operation) (finalized : Bool) (parts : List (Solid K)) (hne : parts ≠ [])
      (h : ∀ part ∈ parts, Vacant part) : Vacant (.combination operation finalized parts)

theorem Vacant.leaves_eq_nil {s : Solid K} (h : s.Vacant) : s.leaves = [] := by
  induction h with
  | bare operation => rfl
  | hollow operation finalized parts hne h ih =>
    rw [leaves, leavesOf_eq_flatMap, List.flatMap_eq_nil_iff]
    exact ih

mutual

/-- A founded solid without polyhedra comes down to open combinations without parts. -/
theorem Founded.vacant {s : Solid K} (hs : s.Founded) (h : s.leaves = []) : s.Vacant := by
  match s with
  | .polyhedron p => cases h
  | .combination operation finalized parts =>
    obtain ⟨hc, hparts⟩ := founded_toSolid_iff (c := ⟨operation, finalized, parts⟩).mp hs
    by_cases hne : parts = []
    -- without parts it cannot be finalized; this is the only use of foundedness
    · cases finalized with
      | false => exact hne ▸ .bare operation
      | true => exact absurd hne (hc rfl)
    · exact .hollow operation finalized parts hne (vacant_of_leavesOf hparts h)

theorem vacant_of_leavesOf {parts : List (Solid K)} (hparts : ∀ part ∈ parts, part.Founded)
    (h : leavesOf parts = []) : ∀ part ∈ parts, part.Vacant := by
  match parts with
  | [] => exact fun part hpart ↦ absurd hpart List.not_mem_nil
  | part :: rest =>
    rw [leavesOf, List.append_eq_nil_iff] at h
    rw [List.forall_mem_cons] at hparts ⊢
    exact ⟨hparts.1.vacant h.1, vacant_of_leavesOf hparts.2 h.2⟩

end

end Solid

namespace Combination

theorem leaves_eq_nil_iff {c : Combination K} (h : c.toSolid.Founded) :
    c.leaves = [] ↔ ∀ part ∈ c.parts, part.Vacant := by
  constructor
  · exact Solid.vacant_of_leavesOf (Solid.founded_toSolid_iff.mp h).2
  · intro hparts
    rw [leaves, toSolid, Solid.leaves, Solid.leavesOf_eq_flatMap, List.flatMap_eq_nil_iff]
    exact fun part hpart ↦ (hparts part hpart).leaves_eq_nil

/-! ## What calls do to nodes -/

namespace Effect

variable [Scalar K] {c : Combination K} {call : Call K} {t : Transition K (Combination K)}

theorem founded_toSolid (h : Effect c call t) (hc : c.toSolid.Founded)
    (hadd : ∀ part, call = .add part → part.Founded) : t.state.toSolid.Founded := by
  obtain ⟨hnode, hparts⟩ := Solid.founded_toSolid_iff.mp hc
  refine Solid.founded_toSolid_iff.mpr ⟨h.founded hnode, ?_⟩
  cases h with
  | refused | closes => exact hparts
  | grows part =>
    exact List.forall_mem_append.mpr ⟨hparts, List.forall_mem_singleton.mpr (hadd part rfl)⟩
  | shifts | moves =>
    exact List.forall_mem_map.mpr fun part hpart ↦ (hparts part hpart).placed _

theorem keeps (h : Effect c call t) : c.toSolid.Keeps t.state.toSolid := by
  cases h with
  | refused => exact .refl _
  | grows part => exact Solid.keeps_toSolid id (Solid.keepsAll_append c.parts [part])
  | closes => exact Solid.keeps_toSolid (fun _ ↦ rfl) (.refl c.parts)
  | shifts | moves =>
    rw [Transition.state_done, ← placed_toSolid]
    exact Solid.keeps_placed _ _

end Effect

end Combination

end SolidModel
