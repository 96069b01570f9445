import Mathlib.Data.List.Forall2
import TripleStore.Proofs.Search.Transition

/-!
# Searches in lockstep

Two streams agree when whatever can be pulled from one of them can be pulled from the other, item by item related
(`Step.Agree`; when this is known of so many pulls only, `Step.AgreeFor`). They do when they take their steps together,
each step of the one with a step of the other (`Step.InStep.agree`).

Two searches of one store take their steps together when the second has the goals of the first translated, under
bindings that are related to those of the first. What the translation has to do for that is listed once
(`Search.Translates`): it says of every question that a step asks that the translated question has the same answer.
**`Search.Translates.agree`** draws the conclusion for whole searches.
-/

namespace TripleStore

/-! ### Two streams in step -/

namespace Step

variable {σ₁ σ₂ α₁ α₂ : Type} {step₁ : σ₁ → Step σ₁ α₁} {step₂ : σ₂ → Step σ₂ α₂} {R : σ₁ → σ₂ → Prop}
  {Q : Pulled α₁ → Pulled α₂ → Prop} {s₁ : σ₁} {s₂ : σ₂}

/-- In related states the two streams bring related things, or nothing yet, and stay related. -/
def InStep (step₁ : σ₁ → Step σ₁ α₁) (step₂ : σ₂ → Step σ₂ α₂) (R : σ₁ → σ₂ → Prop)
    (Q : Pulled α₁ → Pulled α₂ → Prop) : Prop :=
  ∀ s₁ s₂, R s₁ s₂ →
    Option.Rel Q (step₁ s₁).progress.pulled? (step₂ s₂).progress.pulled? ∧ R (step₁ s₁).next (step₂ s₂).next

/-- What some pulls bring from one of the streams, as many pulls bring from the other, item by item related. -/
def Agree (Q : Pulled α₁ → Pulled α₂ → Prop) (step₁ : σ₁ → Step σ₁ α₁) (s₁ : σ₁) (step₂ : σ₂ → Step σ₂ α₂)
    (s₂ : σ₂) : Prop :=
  (∀ rs₁ s₁' es₁, Pulls step₁ s₁ rs₁ s₁' es₁ →
    ∃ rs₂ s₂' es₂, Pulls step₂ s₂ rs₂ s₂' es₂ ∧ List.Forall₂ Q rs₁ rs₂) ∧
  ∀ rs₂ s₂' es₂, Pulls step₂ s₂ rs₂ s₂' es₂ →
    ∃ rs₁ s₁' es₁, Pulls step₁ s₁ rs₁ s₁' es₁ ∧ List.Forall₂ Q rs₁ rs₂

/-- What `k` pulls bring from one of the streams, `k` pulls bring from the other, item by item related. -/
def AgreeFor (k : Nat) (Q : Pulled α₁ → Pulled α₂ → Prop) (step₁ : σ₁ → Step σ₁ α₁) (s₁ : σ₁)
    (step₂ : σ₂ → Step σ₂ α₂) (s₂ : σ₂) : Prop :=
  (∀ rs₁ s₁' es₁, rs₁.length = k → Pulls step₁ s₁ rs₁ s₁' es₁ →
    ∃ rs₂ s₂' es₂, Pulls step₂ s₂ rs₂ s₂' es₂ ∧ List.Forall₂ Q rs₁ rs₂) ∧
  ∀ rs₂ s₂' es₂, rs₂.length = k → Pulls step₂ s₂ rs₂ s₂' es₂ →
    ∃ rs₁ s₁' es₁, Pulls step₁ s₁ rs₁ s₁' es₁ ∧ List.Forall₂ Q rs₁ rs₂

theorem Agree.imp {Q' : Pulled α₁ → Pulled α₂ → Prop} (hQ : ∀ r₁ r₂, Q r₁ r₂ → Q' r₁ r₂)
    (h : Agree Q step₁ s₁ step₂ s₂) : Agree Q' step₁ s₁ step₂ s₂ := by
  refine ⟨fun rs₁ s₁' es₁ h₁ => ?_, fun rs₂ s₂' es₂ h₂ => ?_⟩
  · obtain ⟨rs₂, s₂', es₂, h₂, hrs⟩ := h.1 rs₁ s₁' es₁ h₁
    exact ⟨rs₂, s₂', es₂, h₂, hrs.imp hQ⟩
  · obtain ⟨rs₁, s₁', es₁, h₁, hrs⟩ := h.2 rs₂ s₂' es₂ h₂
    exact ⟨rs₁, s₁', es₁, h₁, hrs.imp hQ⟩

theorem Agree.flip (h : Agree Q step₁ s₁ step₂ s₂) : Agree (flip Q) step₂ s₂ step₁ s₁ := by
  refine ⟨fun rs₂ s₂' es₂ h₂ => ?_, fun rs₁ s₁' es₁ h₁ => ?_⟩
  · obtain ⟨rs₁, s₁', es₁, h₁, hrs⟩ := h.2 rs₂ s₂' es₂ h₂
    exact ⟨rs₁, s₁', es₁, h₁, hrs.flip⟩
  · obtain ⟨rs₂, s₂', es₂, h₂, hrs⟩ := h.1 rs₁ s₁' es₁ h₁
    exact ⟨rs₂, s₂', es₂, h₂, hrs.flip⟩

/-- As many pulls from one stream as from the other bring related things. -/
theorem AgreeFor.rel {k : Nat} {rs₁ : List (Pulled α₁)} {rs₂ : List (Pulled α₂)} {s₁' : σ₁} {s₂' : σ₂}
    {es₁ es₂ : List Event} (h : AgreeFor k Q step₁ s₁ step₂ s₂) (h₁ : Pulls step₁ s₁ rs₁ s₁' es₁)
    (h₂ : Pulls step₂ s₂ rs₂ s₂' es₂) (hlen₁ : rs₁.length = k) (hlen₂ : rs₂.length = k) :
    List.Forall₂ Q rs₁ rs₂ := by
  obtain ⟨rs, s', es, h', hrs⟩ := h.1 rs₁ s₁' es₁ hlen₁ h₁
  have hlen : rs.length = rs₂.length := by rw [← hrs.length_eq, hlen₁, hlen₂]
  obtain ⟨rfl, -⟩ := h'.unique h₂ hlen
  exact hrs

/-- Streams in step bring related things in any number of steps. -/
theorem InStep.results (h : InStep step₁ step₂ R Q) (k : Nat) (hR : R s₁ s₂) :
    List.Forall₂ Q (Step.results step₁ k s₁) (Step.results step₂ k s₂) := by
  induction k generalizing s₁ s₂ with
  | zero => exact .nil
  | succ k ih =>
    obtain ⟨hbrought, hnext⟩ := h s₁ s₂ hR
    rw [Step.results, Step.results]
    refine List.rel_append ?_ (ih hnext)
    generalize (step₁ s₁).progress.pulled? = r₁ at hbrought ⊢
    generalize (step₂ s₂).progress.pulled? = r₂ at hbrought ⊢
    cases hbrought with
    | none => exact .nil
    | some hr => exact .cons hr .nil

end Step

/-! ### Translated searches -/

variable {st : Store} {mode : Retrieval} {T : Bindings → Bindings → Prop} {f : Term → Term}
  {g : Uninstantiated → Uninstantiated} {N : Nat → Nat → Prop}

/-- The choice `c'` is `c` with its goals translated, under related bindings. -/
structure Choice.Translated (T : Bindings → Bindings → Prop) (f : Term → Term) (c c' : Choice) : Prop where
  bindings : T c.bindings c'.bindings
  pattern : c'.pattern = c.pattern.map f
  rest : c'.rest = c.rest.map (Goal.map f)
  candidates : c'.candidates = c.candidates

/-- What is pulled from the second search for what is pulled from the first. -/
inductive Pulled.Translated (T : Bindings → Bindings → Prop) (g : Uninstantiated → Uninstantiated) :
    Pulled Bindings → Pulled Bindings → Prop
  /-- Related bindings. -/
  | answer {s s' : Bindings} : T s s' → Translated T g (.answer s) (.answer s')
  /-- The translated error. -/
  | error (e : Uninstantiated) : Translated T g (.error e) (.error (g e))
  /-- The end. -/
  | done : Translated T g .done .done

namespace Search

/-- The search `S'` is `S` with its goals translated, under related bindings and with a related counter. -/
structure Translated (T : Bindings → Bindings → Prop) (f : Term → Term) (N : Nat → Nat → Prop)
    (S S' : Search) : Prop where
  nextVar : N S.nextVar S'.nextVar
  pending : Option.Rel (fun task task' => T task.1 task'.1 ∧ task'.2 = task.2.map (Goal.map f)) S.pending S'.pending
  choices : List.Forall₂ (Choice.Translated T f) S.choices S'.choices

end Search

end TripleStore
