import Mathlib.Data.List.Forall2
import SolidModel.Fault

/-!
# Outcomes of computations that may be refused

A construction checks its arguments, runs other constructions and assembles a result. If it
succeeds then so did every part of it. The lemmas here take such a success apart one part at a
time, so that no proof has to open the construction further than that.
-/

namespace SolidModel

namespace Outcome

variable {ε α β γ : Type}

theorem bind_eq_ok_iff {x : Except ε α} {f : α → Except ε β} {b : β} :
    x >>= f = .ok b ↔ ∃ a, x = .ok a ∧ f a = .ok b := by
  cases x with
  | error e => simp [bind, Except.bind]
  | ok a => simp [bind, Except.bind]

theorem pure_eq_ok_iff {a b : α} : (pure a : Except ε α) = .ok b ↔ a = b := by
  simp [pure, Except.pure]

/-- A check that refuses lets nothing after it run. -/
theorem guard_eq_ok_iff {c : Prop} [Decidable c] {e : ε} {f : α → Except ε β} {x : Except ε β}
    {b : β} : (if c then (throw e : Except ε α) >>= f else x) = .ok b ↔ ¬c ∧ x = .ok b := by
  split
  next h => simp [h, bind, Except.bind, throw, throwThe, MonadExceptOf.throw]
  next h => simp [h]

theorem forM_eq_ok_iff {l : List α} {f : α → Except ε Unit} :
    l.forM f = .ok () ↔ ∀ a ∈ l, f a = .ok () := by
  induction l with
  | nil => exact ⟨fun _ a ha ↦ absurd ha List.not_mem_nil, fun _ ↦ rfl⟩
  | cons a l ih =>
    simp only [List.forM_eq_forM, List.forM_cons, List.mem_cons, forall_eq_or_imp] at ih ⊢
    rw [bind_eq_ok_iff, ← ih]
    constructor
    · rintro ⟨⟨⟩, hx, hs⟩
      exact ⟨hx, hs⟩
    · intro h
      exact ⟨(), h⟩

theorem forall₂_of_mapM_eq_ok {l : List α} {f : α → Except ε β} {r : List β}
    (h : l.mapM f = .ok r) : List.Forall₂ (fun a b ↦ f a = .ok b) l r := by
  induction l generalizing r with
  | nil =>
    rw [List.mapM_nil, pure_eq_ok_iff] at h
    rw [← h]
    exact .nil
  | cons a l ih =>
    simp only [List.mapM_cons, bind_eq_ok_iff, pure_eq_ok_iff] at h
    obtain ⟨b, hb, bs, hbs, rfl⟩ := h
    exact .cons hb (ih hbs)

theorem mapM_eq_ok_iff_forall₂ {l : List α} {f : α → Except ε β} {r : List β} :
    l.mapM f = .ok r ↔ List.Forall₂ (fun a b ↦ f a = .ok b) l r := by
  refine ⟨forall₂_of_mapM_eq_ok, fun h ↦ ?_⟩
  induction h with
  | nil => rfl
  | cons hab _ ih => rw [List.mapM_cons, hab, ih]; rfl

/-- A result and what it is made from agree in whatever every single outcome agrees in. -/
theorem map_eq_of_mapM_eq_ok {l : List α} {f : α → Except ε β} {r : List β} {g : β → γ} {k : α → γ}
    (h : l.mapM f = .ok r) (hf : ∀ a b, f a = .ok b → g b = k a) : r.map g = l.map k := by
  have hpairs := forall₂_of_mapM_eq_ok h
  clear h
  induction hpairs with
  | nil => rfl
  | cons hab _ ih => rw [List.map_cons, List.map_cons, hf _ _ hab, ih]

theorem length_of_mapM_eq_ok {l : List α} {f : α → Except ε β} {r : List β}
    (h : l.mapM f = .ok r) : r.length = l.length :=
  (forall₂_of_mapM_eq_ok h).length_eq.symm

theorem mapM_congr {l : List α} {f g : α → Except ε β} (h : ∀ a ∈ l, f a = g a) :
    l.mapM f = l.mapM g := by
  induction l with
  | nil => rfl
  | cons a l ih =>
    obtain ⟨ha, hl⟩ := List.forall_mem_cons.mp h
    rw [List.mapM_cons, List.mapM_cons, ha, ih hl]

theorem mapM_eq_map {f : α → Except ε β} {g : α → Except ε γ} {k : β → γ}
    (h : ∀ a, g a = (f a).map k) (l : List α) : l.mapM g = (l.mapM f).map (List.map k) := by
  induction l with
  | nil => rfl
  | cons a l ih =>
    rw [List.mapM_cons, List.mapM_cons, h, ih]
    cases f a with
    | error e => rfl
    | ok b =>
      cases l.mapM f with
      | error e => rfl
      | ok bs => rfl

/-- Elements may be replaced, each by its position, as long as their outcomes stay the same. -/
theorem mapM_mapIdx {l : List α} {f : α → Except ε β} {g : ℕ → α → α}
    (h : ∀ i, ∀ a ∈ l, f (g i a) = f a) : (l.mapIdx g).mapM f = l.mapM f := by
  induction l generalizing g with
  | nil => rfl
  | cons a l ih =>
    rw [List.mapIdx_cons, List.mapM_cons, List.mapM_cons, h 0 a List.mem_cons_self,
      ih fun i b hb ↦ h (i + 1) b (List.mem_cons_of_mem a hb)]

theorem forall_mem_of_mapM_eq_ok {l : List α} {f : α → Except ε β} {r : List β} {P : β → Prop}
    (h : l.mapM f = .ok r) (hf : ∀ a b, f a = .ok b → P b) : ∀ b ∈ r, P b := by
  have hpairs := forall₂_of_mapM_eq_ok h
  clear h
  induction hpairs with
  | nil => exact fun _ hb ↦ absurd hb List.not_mem_nil
  | cons hab _ ih => exact List.forall_mem_cons.mpr ⟨hf _ _ hab, ih⟩

theorem mapM_eq_ok_iff {l : List α} {f : α → Except ε β} {accepted : α → Prop} {g : α → β}
    {r : List β} (h : ∀ a b, f a = .ok b ↔ accepted a ∧ g a = b) :
    l.mapM f = .ok r ↔ (∀ a ∈ l, accepted a) ∧ l.map g = r := by
  induction l generalizing r with
  | nil => simp [pure_eq_ok_iff]
  | cons a l ih =>
    simp only [List.mapM_cons, bind_eq_ok_iff, pure_eq_ok_iff, h, ih, List.forall_mem_cons,
      List.map_cons]
    constructor
    · rintro ⟨b, ⟨ha, rfl⟩, bs, ⟨hl, rfl⟩, rfl⟩
      exact ⟨⟨ha, hl⟩, rfl⟩
    · rintro ⟨⟨ha, hl⟩, rfl⟩
      exact ⟨_, ⟨ha, rfl⟩, _, ⟨hl, rfl⟩, rfl⟩

theorem length_flatten_of_mapM_eq_ok {l : List α} {f : α → Except ε (List β)}
    {r : List (List β)} {n : Nat} (h : l.mapM f = .ok r) (hf : ∀ a b, f a = .ok b → b.length = n) :
    r.flatten.length = l.length * n := by
  have hpieces : r.map List.length = l.map fun _ ↦ n := map_eq_of_mapM_eq_ok h hf
  rw [List.length_flatten, hpieces, List.map_const', List.sum_replicate_nat]

/-- An outcome on given numbers is evaluated up to its fault, which has no decidable equality. -/
theorem eq_ok_of_toOption {e : Except ε α} {a : α} (h : e.toOption = some a) : e = .ok a := by
  cases e with
  | error fault => cases h
  | ok b => rw [Option.some.inj h]

theorem exists_eq_ok_of_isSome {e : Except ε α} (h : e.toOption.isSome = true) :
    ∃ a, e = .ok a := by
  cases e with
  | error fault => cases h
  | ok a => exact ⟨a, rfl⟩

/-! ## Refusals -/

variable {K : Type} {kind : FaultKind} {x : Except (Fault K) α} {f : α → Except (Fault K) β}

/-- The computation is refused for a cause of the given sort. -/
def RefusedAs (kind : FaultKind) (x : Except (Fault K) α) : Prop :=
  ∃ fault, x = .error fault ∧ fault.kind = kind

theorem RefusedAs.bind (h : RefusedAs kind x) (f : α → Except (Fault K) β) :
    RefusedAs kind (x >>= f) := by
  obtain ⟨fault, rfl, hkind⟩ := h
  exact ⟨fault, rfl, hkind⟩

theorem RefusedAs.ne_ok {a : α} (h : RefusedAs kind x) : x ≠ .ok a := by
  obtain ⟨fault, rfl, -⟩ := h
  exact nofun

theorem RefusedAs.of_eq_ok {a : α} (hx : x = .ok a) (h : RefusedAs kind (f a)) :
    RefusedAs kind (x >>= f) := by
  subst hx
  exact h

theorem RefusedAs.of_guard {c : Prop} [Decidable c] {e : Fault K} {y : Except (Fault K) β}
    (hc : ¬c) (h : RefusedAs kind y) :
    RefusedAs kind (if c then (throw e : Except (Fault K) α) >>= f else y) := by
  rwa [if_neg hc]

/-- Whatever the computation is refused for is of the given sort. -/
def RefusedOnlyAs (kind : FaultKind) (x : Except (Fault K) α) : Prop :=
  ∀ fault, x = .error fault → fault.kind = kind

theorem refusedOnlyAs_ok (a : α) : RefusedOnlyAs kind (.ok a : Except (Fault K) α) := nofun

theorem refusedOnlyAs_error {fault : Fault K} (h : fault.kind = kind) :
    RefusedOnlyAs kind (.error fault : Except (Fault K) α) := by
  rintro _ ⟨⟩
  exact h

theorem RefusedOnlyAs.bind (hx : RefusedOnlyAs kind x) (hf : ∀ a, RefusedOnlyAs kind (f a)) :
    RefusedOnlyAs kind (x >>= f) := by
  cases x with
  | error fault => exact refusedOnlyAs_error (hx fault rfl)
  | ok a => exact hf a

theorem RefusedOnlyAs.guard {c : Prop} [Decidable c] {e : Fault K} {y : Except (Fault K) β}
    {f : α → Except (Fault K) β} (he : e.kind = kind) (hy : RefusedOnlyAs kind y) :
    RefusedOnlyAs kind (if c then (throw e : Except (Fault K) α) >>= f else y) := by
  split
  · exact refusedOnlyAs_error he
  · exact hy

theorem RefusedOnlyAs.mapM {l : List α} {f : α → Except (Fault K) β}
    (h : ∀ a, RefusedOnlyAs kind (f a)) : RefusedOnlyAs kind (l.mapM f) := by
  induction l with
  | nil => exact refusedOnlyAs_ok []
  | cons a l ih =>
    rw [List.mapM_cons]
    exact (h a).bind fun b ↦ ih.bind fun bs ↦ refusedOnlyAs_ok (b :: bs)

/-- What can be refused for one sort of causes only is refused for it or succeeds. -/
theorem RefusedOnlyAs.refusedAs_or (h : RefusedOnlyAs kind x) :
    RefusedAs kind x ∨ ∃ a, x = .ok a := by
  cases x with
  | error fault => exact .inl ⟨fault, rfl, h fault rfl⟩
  | ok a => exact .inr ⟨a, rfl⟩

theorem RefusedOnlyAs.refusedAs_of_isNone (h : RefusedOnlyAs kind x)
    (hx : x.toOption.isNone = true) : RefusedAs kind x := by
  refine h.refusedAs_or.resolve_right ?_
  rintro ⟨a, rfl⟩
  cases hx

theorem mapM_eq_ok {ε : Type} {l : List α} {f : α → Except ε β} {g : α → β}
    (h : ∀ a ∈ l, f a = .ok (g a)) : l.mapM f = .ok (l.map g) := by
  induction l with
  | nil => rfl
  | cons a l ih =>
    obtain ⟨ha, hl⟩ := List.forall_mem_cons.mp h
    rw [List.mapM_cons, ha, ih hl]
    rfl

theorem exists_mapM_eq_ok_iff {ε : Type} {l : List α} {f : α → Except ε β} :
    (∃ r, l.mapM f = .ok r) ↔ ∀ a ∈ l, ∃ b, f a = .ok b := by
  induction l with
  | nil => exact ⟨fun _ _ ha ↦ absurd ha List.not_mem_nil, fun _ ↦ ⟨[], rfl⟩⟩
  | cons a l ih =>
    simp only [List.mapM_cons, bind_eq_ok_iff, pure_eq_ok_iff, List.forall_mem_cons, ← ih]
    constructor
    · rintro ⟨-, b, hb, bs, hbs, -⟩
      exact ⟨⟨b, hb⟩, bs, hbs⟩
    · rintro ⟨⟨b, hb⟩, bs, hbs⟩
      exact ⟨b :: bs, b, hb, bs, hbs, rfl⟩

end Outcome

end SolidModel
