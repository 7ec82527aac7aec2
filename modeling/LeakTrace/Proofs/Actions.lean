import LeakTrace.Files.Route
import Mathlib.Data.List.Forall2

namespace LeakTrace

/-- An action that may fail and keeps what it did before. -/
abbrev Action (σ α : Type) := ExceptT Failure (StateM σ) α

variable {σ α β : Type} {s s' : σ}

/-- The action, begun in one state, succeeds with a value and leaves another state. -/
def Succeeds (action : Action σ α) (s : σ) (a : α) (s' : σ) : Prop :=
  Id.run (action.run.run s) = (.ok a, s')

theorem exists_succeeds {action : Action σ α} (h : (Id.run (action.run.run s)).1.isOk = true) :
    ∃ a s', Succeeds action s a s' ∧ s' = (Id.run (action.run.run s)).2 := by
  cases hresult : (Id.run (action.run.run s)).1 with
  | error failure =>
    rw [hresult] at h
    exact absurd h (by simp [Except.isOk, Except.toBool])
  | ok a => exact ⟨a, _, Prod.ext hresult rfl, rfl⟩

@[simp] theorem succeeds_pure {a b : α} :
    Succeeds (pure a : Action σ α) s b s' ↔ a = b ∧ s = s' := by
  simp [Succeeds]

@[simp] theorem not_succeeds_throw {failure : Failure} {a : α} :
    ¬Succeeds (throw failure : Action σ α) s a s' := by
  simp [Succeeds]

@[simp] theorem succeeds_get {t : σ} : Succeeds (get : Action σ σ) s t s' ↔ s = t ∧ s = s' := by
  have hrun : Id.run ((get : Action σ σ).run.run s) = (.ok s, s) := rfl
  rw [Succeeds, hrun]
  simp

@[simp] theorem succeeds_set {t : σ} {u : PUnit} :
    Succeeds (set t : Action σ PUnit) s u s' ↔ t = s' := by
  have hrun : Id.run ((set t : Action σ PUnit).run.run s) = (.ok ⟨⟩, t) := rfl
  rw [Succeeds, hrun]
  simp

@[simp] theorem succeeds_bind {action : Action σ α} {next : α → Action σ β} {b : β} :
    Succeeds (action >>= next) s b s' ↔
      ∃ a between, Succeeds action s a between ∧ Succeeds (next a) between b s' := by
  simp only [Succeeds, ExceptT.run_bind, StateT.run_bind, Id.run_bind]
  rcases Id.run (action.run.run s) with ⟨result, between⟩
  cases result with
  | error failure => simp
  | ok a =>
    constructor
    · intro h
      exact ⟨a, between, rfl, h⟩
    · rintro ⟨_, _, hfirst, h⟩
      obtain ⟨rfl, rfl⟩ : a = _ ∧ between = _ := by simpa using hfirst
      exact h

theorem succeeds_get_bind {next : σ → Action σ β} {b : β} :
    Succeeds (get >>= next) s b s' ↔ Succeeds (next s) s b s' := by
  rw [succeeds_bind]
  constructor
  · rintro ⟨t, between, hget, h⟩
    obtain ⟨rfl, rfl⟩ := succeeds_get.mp hget
    exact h
  · intro h
    exact ⟨s, s, succeeds_get.mpr ⟨rfl, rfl⟩, h⟩

variable {R : σ → σ → Prop} [IsPreorder σ R]

/-- If every action for an element relates the states around it, so do all of them one after another;
and the values stand in the order of the elements. -/
theorem Succeeds.mapM {f : α → Action σ β} (hf : ∀ a s b s', Succeeds (f a) s b s' → R s s')
    {as : List α} {bs : List β} (h : Succeeds (as.mapM f) s bs s') :
    R s s' ∧ List.Forall₂ (fun a b => ∃ s s', Succeeds (f a) s b s') as bs := by
  induction as generalizing s bs with
  | nil =>
    rw [List.mapM_nil, succeeds_pure] at h
    obtain ⟨rfl, rfl⟩ := h
    exact ⟨refl_of R s, .nil⟩
  | cons a as ih =>
    rw [List.mapM_cons, succeeds_bind] at h
    obtain ⟨b, s₁, hb, h⟩ := h
    rw [succeeds_bind] at h
    obtain ⟨rest, s₂, hrest, h⟩ := h
    obtain ⟨rfl, rfl⟩ := succeeds_pure.mp h
    obtain ⟨hR, hvalues⟩ := ih hrest
    exact ⟨trans_of R (hf a s b s₁ hb) hR, .cons ⟨s, s₁, hb⟩ hvalues⟩

theorem Succeeds.forIn {f : α → β → Action σ (ForInStep β)} {as : List α}
    (hf : ∀ a ∈ as, ∀ b s r s', Succeeds (f a b) s r s' → R s s') {b b' : β}
    (h : Succeeds (forIn as b f) s b' s') : R s s' := by
  induction as generalizing s b with
  | nil =>
    rw [List.forIn_nil, succeeds_pure] at h
    obtain ⟨-, rfl⟩ := h
    exact refl_of R s
  | cons a as ih =>
    rw [List.forIn_cons, succeeds_bind] at h
    obtain ⟨r, s₁, hr, h⟩ := h
    have hfirst := hf a List.mem_cons_self b s r s₁ hr
    cases r with
    | done b₁ =>
      obtain ⟨-, rfl⟩ := succeeds_pure.mp h
      exact hfirst
    | yield b₁ =>
      exact trans_of R hfirst (ih (fun a ha => hf a (List.mem_cons_of_mem _ ha)) h)

/-- The elements of a list lead from one state to another, each with a step of its own. -/
def Chain (step : α → σ → σ → Prop) : List α → σ → σ → Prop
  | [], s, s' => s = s'
  | a :: as, s, s' => ∃ between, step a s between ∧ Chain step as between s'

theorem Chain.map {τ : Type} {step : α → σ → σ → Prop} {step' : α → τ → τ → Prop} (g : σ → τ)
    {as : List α} (hstep : ∀ a ∈ as, ∀ s s', step a s s' → step' a (g s) (g s'))
    (h : Chain step as s s') : Chain step' as (g s) (g s') := by
  induction as generalizing s with
  | nil => exact congrArg g h
  | cons a as ih =>
    obtain ⟨between, hfirst, hrest⟩ := h
    exact ⟨g between, hstep a List.mem_cons_self s between hfirst,
      ih (fun a ha => hstep a (List.mem_cons_of_mem _ ha)) hrest⟩

/-- A loop that is never left early makes the steps of all elements. -/
theorem Succeeds.forIn_chain {step : α → σ → σ → Prop} {f : α → β → Action σ (ForInStep β)}
    {as : List α} (hf : ∀ a ∈ as, ∀ b s r s', Succeeds (f a b) s r s' →
      (∃ b', r = .yield b') ∧ step a s s') {b b' : β}
    (h : Succeeds (ForIn.forIn as b f) s b' s') : Chain step as s s' := by
  induction as generalizing s b with
  | nil =>
    rw [List.forIn_nil, succeeds_pure] at h
    exact h.2
  | cons a as ih =>
    rw [List.forIn_cons, succeeds_bind] at h
    obtain ⟨r, s₁, hr, h⟩ := h
    obtain ⟨⟨b₁, rfl⟩, hfirst⟩ := hf a List.mem_cons_self b s r s₁ hr
    exact ⟨s₁, hfirst, ih (fun a ha => hf a (List.mem_cons_of_mem _ ha)) h⟩

end LeakTrace
