import Mathlib.Data.Set.Basic
import TripleStore.Proofs.Checks
import TripleStore.Proofs.Store.Candidates

/-!
# What follows from a store

`Store.Derivable` is the meaning of facts and rules, with no mention of search: the least set of ground
triples that contains every fact and, under every assignment of ground terms, the head of each rule whose
body holds (`closed_derivable`, `Derivable.mem_of_closed`, `Derivable.isGround`). A search uses an entry with
its variables renamed into a range of their own; `derivable_of_entry` and `Derivable.exists_supports` say
what this comes to, in the one direction and in the other.

A check that runs on bindings says what holds under every assignment that respects them (`Check.run_iff`),
so that it may run early.
-/

namespace TripleStore

open Term

variable {M : Triple → Prop} {τ τ' : Nat → Term}

/-! ### Goals under an assignment -/

/-- The condition holds of the values of the arguments. -/
def Check.Holds (τ : Nat → Term) : Check → Prop
  | .distinct left right => left.subst τ ≠ right.subst τ
  | .assert _ args holds => holds (args.map (Term.subst τ)) = true

/-- The goal holds under an assignment: a pattern when its value is one of the triples, a check when its
condition holds. -/
def Goal.Holds (M : Triple → Prop) (τ : Nat → Term) : Goal → Prop
  | .pattern t => M (t.map (Term.subst τ))
  | .check c => c.Holds τ

theorem Triple.mem_vars {t : Triple} {v : Nat} :
    v ∈ t.vars ↔ v ∈ t.entity.vars ∨ v ∈ t.attr.vars ∨ v ∈ t.value.vars := by
  simp [Triple.vars, Triple.toList, varsAll_eq_flatMap]

theorem Triple.notMem_vars_of_isGround {t : Triple} (h : t.isGround = true) (v : Nat) : v ∉ t.vars := by
  obtain ⟨hentity, hattr, hvalue⟩ := Triple.isGround_iff.1 h
  rw [Triple.mem_vars]
  rintro (hv | hv | hv)
  · exact Term.isGround_iff.1 hentity v hv
  · exact Term.isGround_iff.1 hattr v hv
  · exact Term.isGround_iff.1 hvalue v hv

theorem Triple.map_subst_congr {t : Triple} (h : ∀ v ∈ t.vars, τ v = τ' v) :
    t.map (subst τ) = t.map (subst τ') := by
  have place {u : Term} (hu : ∀ v ∈ u.vars, v ∈ t.vars) : u.subst τ = u.subst τ' :=
    subst_congr fun v hv => h v (hu v hv)
  rw [Triple.map, Triple.map, place fun v hv => Triple.mem_vars.2 (.inl hv),
    place fun v hv => Triple.mem_vars.2 (.inr (.inl hv)), place fun v hv => Triple.mem_vars.2 (.inr (.inr hv))]

/-- The value of a renamed triple. -/
theorem Triple.subst_shift (base : Nat) (τ : Nat → Term) (t : Triple) :
    (t.shift base).map (subst τ) = t.map (subst fun v => τ (v + base)) := by
  simp only [shift, map, Term.subst_shift]

theorem Triple.isGround_subst (hτ : Grounding τ) (t : Triple) : (t.map (subst τ)).isGround = true :=
  Triple.isGround_iff.2 ⟨hτ.subst _, hτ.subst _, hτ.subst _⟩

theorem Check.mem_vars {c : Check} {v : Nat} : v ∈ c.vars ↔ ∃ t ∈ c.args, v ∈ t.vars := by
  rw [vars, varsAll_eq_flatMap, List.mem_flatMap]

theorem Check.holds_congr {c : Check} (h : ∀ v ∈ c.vars, τ v = τ' v) : c.Holds τ ↔ c.Holds τ' := by
  have arg {t : Term} (ht : t ∈ c.args) : t.subst τ = t.subst τ' :=
    subst_congr fun v hv => h v (Check.mem_vars.2 ⟨t, ht, hv⟩)
  cases c with
  | distinct left right =>
    rw [Holds, Holds, arg (t := left) (by simp [args]), arg (t := right) (by simp [args])]
  | assert label args holds =>
    have hargs : args.map (subst τ) = args.map (subst τ') := List.map_congr_left fun t ht => arg ht
    rw [Holds, Holds, hargs]

/-- Only the values of the variables of a goal matter. -/
theorem Goal.holds_congr {g : Goal} (h : ∀ v ∈ g.vars, τ v = τ' v) : g.Holds M τ ↔ g.Holds M τ' := by
  cases g with
  | pattern t => rw [Holds, Holds, Triple.map_subst_congr h]
  | check c => exact Check.holds_congr h

/-- The value of a renamed goal. -/
theorem Goal.holds_shift {g : Goal} {base : Nat} :
    (g.shift base).Holds M τ ↔ g.Holds M fun v => τ (v + base) := by
  cases g with
  | pattern t =>
    show M ((t.shift base).map (subst τ)) ↔ _
    rw [Triple.subst_shift, Holds]
  | check c =>
    cases c with
    | distinct left right => simp only [shift, map, Check.map, Holds, Check.Holds, Term.subst_shift]
    | assert label args holds =>
      simp only [shift, map, Check.map, Holds, Check.Holds, List.map_map, Function.comp_def, Term.subst_shift]

/-! ### Derivable triples -/

namespace Store

variable {st : Store}

/-- The triples that follow from the facts and rules of a store. -/
inductive Derivable (st : Store) : Triple → Prop
  /-- A fact. -/
  | fact {t : Triple} {ground : t.isGround = true} : .fact t ground ∈ st.entries → Derivable st t
  /-- The head of a rule, under an assignment under which each goal of the body holds. -/
  | rule {r : Rule} {τ : Nat → Term} : .rule r ∈ st.entries → Grounding τ →
      (∀ t, .pattern t ∈ r.body → Derivable st (t.map (subst τ))) → (∀ c, .check c ∈ r.body → c.Holds τ) →
      Derivable st (r.head.map (subst τ))

/-- A set of triples that has every fact, and the head of a rule whenever it has what the body asks for. -/
def Closed (st : Store) (M : Set Triple) : Prop :=
  (∀ t ground, .fact t ground ∈ st.entries → t ∈ M) ∧
    ∀ r τ, .rule r ∈ st.entries → Grounding τ → (∀ g ∈ r.body, g.Holds (· ∈ M) τ) → r.head.map (subst τ) ∈ M

theorem closed_derivable (st : Store) : st.Closed st.Derivable :=
  ⟨fun _ _ h => .fact h, fun _ _ hr hτ hbody =>
    .rule hr hτ (fun t ht => hbody (.pattern t) ht) fun c hc => hbody (.check c) hc⟩

/-- **Derivable triples are in every closed set**: they are the least one. -/
theorem Derivable.mem_of_closed {t : Triple} (h : st.Derivable t) {M : Set Triple} (hM : st.Closed M) : t ∈ M := by
  induction h with
  | fact hfact => exact hM.1 _ _ hfact
  | @rule r τ hr hτ _ hchecks ih =>
    refine hM.2 r τ hr hτ fun g hg => ?_
    cases g with
    | pattern t => exact ih t hg
    | check c => exact hchecks c hg

theorem Derivable.isGround {t : Triple} (h : st.Derivable t) : t.isGround = true := by
  cases h with
  | @fact t ground _ => exact ground
  | rule _ hτ _ _ => exact Triple.isGround_subst hτ _

/-! ### Entries in use -/

/-- The value of the head of an entry follows when its body holds. -/
theorem derivable_of_entry {p base : Nat} {e : Entry} (hp : st.get? p = some e) (hτ : Grounding τ)
    (hbody : ∀ g ∈ e.bodyAt base, g.Holds st.Derivable τ) : st.Derivable ((e.headAt base).map (subst τ)) := by
  have he : e ∈ st.entries := Array.mem_of_getElem? hp
  cases e with
  | fact t ground =>
    rw [Entry.headAt, Triple.map_of_isGround ground fun u hu => subst_of_isGround hu τ]
    exact .fact he
  | rule r =>
    rw [Entry.headAt, Rule.headAt, Triple.subst_shift]
    refine st.closed_derivable.2 r (fun v => τ (v + base)) he (fun v => hτ _) fun g hg => ?_
    exact Goal.holds_shift.1 (hbody _ (List.mem_map_of_mem hg))

/-- The entry at the position derives the triple: wherever its variables are renamed to, they can be given
values, with those of all other variables kept, under which its head is the triple and its body holds. -/
def Supports (st : Store) (p : Nat) (t : Triple) : Prop :=
  ∃ e, st.get? p = some e ∧ ∀ base τ, Grounding τ → ∃ τ', Grounding τ' ∧
    (∀ v, (v < base ∨ base + e.varCount ≤ v) → τ' v = τ v) ∧ (e.headAt base).map (subst τ') = t ∧
      ∀ g ∈ e.bodyAt base, g.Holds st.Derivable τ'

/-- A derivable triple is derived by some entry. -/
theorem Derivable.exists_supports {t : Triple} (h : st.Derivable t) : ∃ p, st.Supports p t := by
  cases h with
  | @fact t ground hfact =>
    obtain ⟨p, hp⟩ := Array.getElem?_of_mem hfact
    refine ⟨p, _, hp, fun base τ hτ => ⟨τ, hτ, fun _ _ => rfl, ?_, by simp [Entry.bodyAt]⟩⟩
    exact Triple.map_of_isGround ground fun u hu => subst_of_isGround hu τ
  | @rule r σ hr hσ hpatterns hchecks =>
    obtain ⟨p, hp⟩ := Array.getElem?_of_mem hr
    refine ⟨p, _, hp, fun base τ hτ => ?_⟩
    -- the variables of the rule get the values they have in the derivation
    let τ' v := if base ≤ v ∧ v < base + r.varCount then σ (v - base) else τ v
    have hshift : ∀ v, v < r.varCount → τ' (v + base) = σ v := fun v hv => by
      rw [show τ' (v + base) = if _ then _ else _ from rfl, if_pos (by omega), Nat.add_sub_cancel]
    refine ⟨τ', fun v => ?_, fun v hv => if_neg fun h => ?_, ?_, fun g hg => ?_⟩
    · show (if _ then _ else _ : Term).isGround = true
      split
      · exact hσ _
      · exact hτ v
    · rw [Entry.varCount] at hv
      omega
    · rw [Entry.headAt, Rule.headAt, Triple.subst_shift]
      exact Triple.map_subst_congr fun v hv => hshift v (r.inScope _ List.mem_cons_self v hv)
    · rw [Entry.bodyAt, Rule.bodyAt] at hg
      obtain ⟨goal, hgoal, rfl⟩ := List.mem_map.1 hg
      rw [Goal.holds_shift,
        Goal.holds_congr fun v hv => hshift v (r.inScope goal (List.mem_cons_of_mem _ hgoal) v hv)]
      cases goal with
      | pattern t => exact hpatterns t hgoal
      | check c => exact hchecks c hgoal

end Store

/-! ### Checks that run on bindings -/

namespace Check

variable {s : Bindings}

theorem holds_iff_verdict {c : Check} : c.Holds τ ↔ c.verdict (subst τ) = true := by
  cases c with
  | distinct left right => exact bne_iff_ne.symm
  | assert label args holds => exact Iff.rfl

/-- **A decided check is decided for good**: it passed exactly if it holds, under every assignment that
respects the bindings. -/
theorem run_iff {c : Check} {b : Bool} (h : c.run s = .ok b) (hτ : s.RespectedBy τ) : b = true ↔ c.Holds τ := by
  obtain ⟨hground, hverdict⟩ := run_eq_ok_iff.1 h
  have hvalue : ∀ t ∈ c.args, s.reify t = t.subst τ := fun t ht => by
    rw [← hτ.subst_reify, subst_of_isGround (hground t ht)]
  rw [holds_iff_verdict, ← hverdict, verdict_congr hvalue]

end Check

namespace Store

end Store

end TripleStore
