import Mathlib
import SolidModel.Proofs.Assembly.Nodes

/-!
# Calls on a workbench

Solids are built on a workbench by calls under names: a polyhedron is put there, solids are
combined, a part of a combination is given a name of its own, and a combination, be it a part or
not, is changed in its place. What a call can do is said once, by `Effect`: it changes names alone,
or puts down one more solid that is made from what is there, or changes one combination as far as
the combination lets it.

Two things go through every run. Each solid on the bench stays founded, so a finalized combination
has parts, however deep down it is; and what has been finalized stays so, in its place. That it has
parts does not mean that there is a polyhedron among its leaves: finalizing looks at the parts and
not into them, and a part may be a combination without parts.
-/

namespace SolidModel

open Outcome

variable {K : Type}

namespace Workbench

/-! ## Calls and runs -/

/-- A call under a name. -/
inductive Call (K : Type) where
  | place (name : String) (p : Polyhedron K)
  | combine (name operation : String) (operands : List String)
  | pick (name whole : String) (i : ℤ)
  | add (name operand : String)
  | addRaw (name : String) (value : Raw K)
  | finalize (name : String)
  | shift (name : String) (delta : Point3 K)
  | move (name : String) (m : Matrix4 K)

/-- The part that a reference leads to. -/
def part? (w : Workbench K) (r : Reference) : Option (Solid K) :=
  w.solids[r.solid]?.bind (·.part? r.path)

/-- The solid under a name that has to be in use. -/
def named (w : Workbench K) (name : String) : Except (Fault K) (Solid K) :=
  match w.solid? name with
  | some s => .ok s
  | none => .error .noElement

/-- A combination of what is under names, put down under a name of its own. -/
def combine (w : Workbench K) (name operation : String) (operands : List String) :
    Except (Fault K) (Workbench K) := do
  let parts ← operands.mapM w.named
  let c ← Combination.ofNamed operation parts
  return w.define name c.toSolid

variable [Scalar K]

/-- A call on the combination under a name, in its place. -/
def change (w : Workbench K) (name : String) (call : Combination.Call K) :
    Transition K (Workbench K) :=
  match w.solid? name with
  | some (.combination operation finalized parts) =>
    let t := Combination.perform ⟨operation, finalized, parts⟩ call
    ⟨w.replace name t.state.toSolid, t.fault⟩
  | _ => .stopped w .noElement

/-- A call carried out as far as it goes. -/
def perform (w : Workbench K) : Call K → Transition K (Workbench K)
  | .place name p => .done (w.define name (.polyhedron p))
  | .combine name operation operands => .attempt w (w.combine name operation operands)
  | .pick name whole i => .attempt w (w.pick name whole i)
  | .add name operand =>
    match w.solid? operand with
    | some part => w.change name (.add part)
    | none => .stopped w .noElement
  | .addRaw name value => w.change name (.addRaw value)
  | .finalize name => w.change name .finalize
  | .shift name delta => w.change name (.shift delta)
  | .move name m => w.change name (.move m)

/-- The workbench after calls in a row, whether they are refused or not. -/
def run (w : Workbench K) (calls : List (Call K)) : Workbench K :=
  calls.foldl (fun w call ↦ (w.perform call).state) w

theorem run_cons (w : Workbench K) (call : Call K) (later : List (Call K)) :
    w.run (call :: later) = (w.perform call).state.run later := rfl

theorem run_append (w : Workbench K) (calls later : List (Call K)) :
    w.run (calls ++ later) = (w.run calls).run later := List.foldl_append

/-! ## What a call does -/

section

omit [Scalar K]

theorem solid?_eq_some_iff {w : Workbench K} {name : String} {s : Solid K} :
    w.solid? name = some s ↔ ∃ r, w.reference? name = some r ∧ w.part? r = some s := by
  simp [solid?, part?, Option.bind_eq_some_iff]

private theorem replace_eq {w : Workbench K} {name : String} {r : Reference}
    (h : w.reference? name = some r) (s : Solid K) :
    w.replace name s =
      { w with solids := w.solids.modify r.solid (Solid.replacePart s r.path) } := by
  rw [replace, h]

end

/-- A solid is made from what is on the bench: a polyhedron, or a new combination of parts there. -/
inductive Made (w : Workbench K) : Solid K → Prop where
  | polyhedron (p : Polyhedron K) : Made w (.polyhedron p)
  | combination (operation : Operation) (parts : List (Solid K))
      (h : ∀ part ∈ parts, ∃ r, w.part? r = some part) :
      Made w (Combination.ofParts operation parts).toSolid

/-- What a call does: other names and nothing else; one more solid; or a change of a combination in
its place. -/
inductive Effect (w : Workbench K) : Workbench K → Prop where
  | names (names : List (String × Reference)) : Effect w { w with names }
  | defines (name : String) {s : Solid K} (h : Made w s) : Effect w (w.define name s)
  -- what is added has been on the bench itself: a part from elsewhere need not be founded
  | changes (r : Reference) {c : Combination K} {call : Combination.Call K}
      {t : Transition K (Combination K)} (hnode : w.part? r = some c.toSolid)
      (h : Combination.Effect c call t)
      (hadd : ∀ part, call = .add part → ∃ r, w.part? r = some part) :
      Effect w { w with
        solids := w.solids.modify r.solid (Solid.replacePart t.state.toSolid r.path) }

private theorem effect_change (w : Workbench K) (name : String) {call : Combination.Call K}
    (hadd : ∀ part, call = .add part → ∃ r, w.part? r = some part) :
    Effect w (w.change name call).state := by
  unfold change
  split
  next operation finalized parts h =>
    obtain ⟨r, hr, hpart⟩ := solid?_eq_some_iff.mp h
    dsimp only
    rw [replace_eq hr]
    exact .changes r (c := ⟨operation, finalized, parts⟩) hpart (Combination.effect _ call) hadd
  next => exact .names w.names

omit [Scalar K] in
theorem named_eq_ok_iff {w : Workbench K} {name : String} {s : Solid K} :
    w.named name = .ok s ↔ w.solid? name = some s := by
  unfold named
  split
  next t h => simp [h]
  next h => simp [h]

omit [Scalar K] in
private theorem made_of_combine {w : Workbench K} {operation : String} {operands : List String}
    {parts : List (Solid K)} {c : Combination K} (hparts : operands.mapM w.named = .ok parts)
    (hc : Combination.ofNamed operation parts = .ok c) : Made w c.toSolid := by
  simp only [Combination.ofNamed, bind_eq_ok_iff, pure_eq_ok_iff] at hc
  obtain ⟨o, -, rfl⟩ := hc
  refine .combination o parts (forall_mem_of_mapM_eq_ok hparts fun name part hpart ↦ ?_)
  obtain ⟨r, -, hr⟩ := solid?_eq_some_iff.mp (named_eq_ok_iff.mp hpart)
  exact ⟨r, hr⟩

theorem effect (w : Workbench K) (call : Call K) : Effect w (w.perform call).state := by
  cases call with
  | place name p => exact .defines name (.polyhedron p)
  | combine name operation operands =>
    simp only [perform, Transition.attempt]
    split
    next built hbuilt =>
      simp only [combine, bind_eq_ok_iff, pure_eq_ok_iff] at hbuilt
      obtain ⟨parts, hparts, c, hc, rfl⟩ := hbuilt
      exact .defines name (made_of_combine hparts hc)
    next => exact .names w.names
  | pick name whole i =>
    simp only [perform, Transition.attempt]
    split
    next picked hpicked =>
      simp only [pick] at hpicked
      split at hpicked
      next =>
        simp only [bind_eq_ok_iff, pure_eq_ok_iff] at hpicked
        obtain ⟨_, _, rfl⟩ := hpicked
        exact .names _
      next => cases hpicked
    next => exact .names w.names
  | add name operand =>
    simp only [perform]
    split
    next part hpart =>
      refine effect_change w name fun other hother ↦ ?_
      cases hother
      obtain ⟨r, -, hr⟩ := solid?_eq_some_iff.mp hpart
      exact ⟨r, hr⟩
    next => exact .names w.names
  | addRaw name | finalize name | shift name | move name =>
    exact effect_change w name fun part h ↦ by cases h

/-! ## What goes through a run -/

section

omit [Scalar K]

/-- Every solid on the bench is founded. -/
def Founded (w : Workbench K) : Prop := ∀ s ∈ w.solids, s.Founded

theorem founded_empty : (empty : Workbench K).Founded :=
  fun _ hs ↦ absurd hs List.not_mem_nil

theorem Founded.of_part? {w : Workbench K} (h : w.Founded) {r : Reference} {part : Solid K}
    (hpart : w.part? r = some part) : part.Founded := by
  obtain ⟨s, hs, hpart⟩ := Option.bind_eq_some_iff.mp hpart
  exact (h s (List.mem_of_getElem? hs)).of_part? hpart

theorem Made.founded {w : Workbench K} {s : Solid K} (h : Made w s) (hw : w.Founded) :
    s.Founded := by
  cases h with
  | polyhedron p => exact Solid.founded_polyhedron p
  | combination operation parts h =>
    refine Solid.founded_toSolid_iff.mpr
      ⟨Combination.founded_ofParts operation parts, fun part hpart ↦ ?_⟩
    obtain ⟨r, hr⟩ := h part hpart
    exact hw.of_part? hr

/-- What is finalized on the first bench is so on the second, in the same place. -/
def Keeps (w v : Workbench K) : Prop :=
  ∀ (r : Reference) (c : Combination K), w.part? r = some c.toSolid → c.finalized = true →
    ∃ d : Combination K, v.part? r = some d.toSolid ∧ d.finalized = true

theorem Keeps.refl (w : Workbench K) : w.Keeps w := fun _ c hc h ↦ ⟨c, hc, h⟩

theorem Keeps.trans {u v w : Workbench K} (huv : u.Keeps v) (hvw : v.Keeps w) : u.Keeps w := by
  intro r c hc h
  obtain ⟨d, hd, h⟩ := huv r c hc h
  exact hvw r d hd h

private theorem keeps_of_keepsAll {w v : Workbench K} (h : Solid.KeepsAll w.solids v.solids) :
    w.Keeps v := by
  intro r c hc hfinalized
  obtain ⟨s, hs, hc⟩ := Option.bind_eq_some_iff.mp hc
  obtain ⟨t, ht, hkeeps⟩ := h r.solid s hs
  rw [part?, ht]
  exact hkeeps r.path c hc hfinalized

end

variable {w v : Workbench K}

theorem Effect.founded (h : Effect w v) (hw : w.Founded) : v.Founded := by
  cases h with
  | names => exact hw
  | defines name hs =>
    exact List.forall_mem_append.mpr ⟨hw, List.forall_mem_singleton.mpr (hs.founded hw)⟩
  | changes r hnode h hadd =>
    have hpart := h.founded_toSolid (hw.of_part? hnode) fun part hpart ↦ by
      obtain ⟨r, hr⟩ := hadd part hpart
      exact hw.of_part? hr
    exact forall_mem_modify hw r.solid fun s hs ↦ hs.replacePart hpart r.path

theorem Effect.keeps (h : Effect w v) : w.Keeps v := by
  cases h with
  | names => exact .refl w
  | defines name => exact keeps_of_keepsAll (Solid.keepsAll_append w.solids _)
  | changes r hnode h =>
    obtain ⟨whole, hwhole, hnode⟩ := Option.bind_eq_some_iff.mp hnode
    exact keeps_of_keepsAll
      (Solid.keepsAll_modify hwhole (Solid.keeps_replacePart hnode h.keeps))

theorem Founded.run (h : w.Founded) (calls : List (Call K)) : (w.run calls).Founded := by
  induction calls generalizing w with
  | nil => exact h
  | cons call later ih => exact ih ((effect w call).founded h)

theorem keeps_run (w : Workbench K) (calls : List (Call K)) : w.Keeps (w.run calls) := by
  induction calls generalizing w with
  | nil => exact .refl w
  | cons call later ih => exact (effect w call).keeps.trans (ih _)

/-- Where finalizing is not refused, what the name stands for is finalized. -/
private theorem finalized_of_fault {name : String} (h : (w.perform (.finalize name)).fault = none) :
    ∃ r, w.reference? name = some r ∧ ∃ c : Combination K,
      (w.perform (.finalize name)).state.part? r = some c.toSolid ∧ c.finalized = true := by
  simp only [perform, change] at h ⊢
  split at h
  next operation finalized parts hnode =>
    obtain ⟨r, hr, hpart⟩ := solid?_eq_some_iff.mp hnode
    obtain ⟨s, hs, hpart⟩ := Option.bind_eq_some_iff.mp hpart
    have heffect := Combination.effect ⟨operation, finalized, parts⟩ .finalize
    refine ⟨r, hr, _, ?_, heffect.finalized_iff.mpr (.inr ⟨rfl, h⟩)⟩
    dsimp only
    rw [replace_eq hr, part?, List.getElem?_modify_eq, hs]
    exact Solid.part?_replacePart _ hpart
  next => cases h

/-- **Finalized combinations.** However solids are built, what has been finalized stays so, in its
place, and each finalized combination has parts, no matter how deep in a solid it is. It has a
polyhedron among its leaves unless all of its parts are vacant. -/
theorem finalized_nodes (calls : List (Call K)) :
    (∀ before name later, calls = before ++ .finalize name :: later →
      ((empty.run before).perform (.finalize name)).fault = none →
      ∃ r, (empty.run before).reference? name = some r ∧ ∃ c : Combination K,
        (empty.run calls).part? r = some c.toSolid ∧ c.finalized = true) ∧
    ∀ (r : Reference) (c : Combination K), (empty.run calls).part? r = some c.toSolid →
      c.finalized = true → c.parts ≠ [] ∧ (c.leaves = [] ↔ ∀ part ∈ c.parts, part.Vacant) := by
  constructor
  · rintro before name later rfl hfault
    obtain ⟨r, hr, c, hc, hfinalized⟩ := finalized_of_fault hfault
    rw [run_append, run_cons]
    exact ⟨r, hr, keeps_run _ later r c hc hfinalized⟩
  · intro r c hc hfinalized
    have hfounded := (founded_empty.run calls).of_part? hc
    exact ⟨(Solid.founded_toSolid_iff.mp hfounded).1 hfinalized,
      Combination.leaves_eq_nil_iff hfounded⟩

section

/-- A union within a difference is finalized, and a part that comes too late is refused. -/
def within : List (Call ℚ) :=
  [.place "dot" ⟨[⟨1, 0, 0⟩], [], none⟩, .combine "inner" "union" ["dot"],
    .combine "outer" "difference" ["inner"], .pick "part" "outer" 0, .finalize "part",
    .add "part" "dot"]

theorem finalized_nodes_within :
    ((empty.run (within.take 4)).perform (.finalize "part")).fault = none ∧
      ∃ c : Combination ℚ, (empty.run within).part? ⟨2, [0]⟩ = some c.toSolid ∧
        c.finalized = true ∧ c.parts ≠ [] ∧ c.leaves ≠ [] := by
  obtain ⟨hkept, hnode⟩ := finalized_nodes within
  obtain ⟨r, hr, c, hc, hfinalized⟩ := hkept (within.take 4) "part" [.add "part" "dot"] rfl rfl
  obtain rfl : ⟨2, [0]⟩ = r := Option.some.inj hr
  refine ⟨rfl, c, hc, hfinalized, (hnode _ c hc hfinalized).1, fun hleaves ↦ ?_⟩
  have hvacant := (hnode _ c hc hfinalized).2.mp hleaves
  obtain rfl := Combination.toSolid_injective (Option.some.inj hc)
  cases hvacant _ (List.mem_singleton_self _)

/-- A union of one union without parts. -/
def nested : List (Call ℚ) := [.combine "inner" "union" [], .combine "outer" "union" ["inner"]]

/-- The outer union has a part and can be finalized; no polyhedron is among its leaves. -/
theorem leaves_nested_eq_nil :
    ((empty.run nested).perform (.finalize "outer")).fault = none ∧
      ∃ c : Combination ℚ,
        ((empty.run nested).perform (.finalize "outer")).state.solid? "outer" = some c.toSolid ∧
          c.finalized = true ∧ c.leaves = [] :=
  ⟨rfl, ⟨.union, true, [.combination .union false []]⟩, rfl, rfl, rfl⟩

end

end Workbench

end SolidModel
