import TripleStore.Proofs.Search.Termination
import TripleStore.Proofs.Store.Facts

/-!
# Attributes that no rule derives

A pattern whose attribute is in the head of no rule is met by facts only (`Store.Underived`). So the resolver tries the
facts for it, one after the other (**`Store.resolveGoals_underived`**), whatever rules there are for other attributes.
Whether a fact matches need not be computed: it does exactly when the pattern can have it as its value
(`Bindings.unifyTriple_ground_cases`).
-/

namespace TripleStore

open Term

/-- A ground triple unifies with a pattern when it can be the value of the pattern, and then it is. -/
theorem Bindings.unifyTriple_ground_cases {s : Bindings} (hs : s.Acyclic) (t : Triple) {u : Triple}
    (hu : u.isGround = true) :
    (∃ s', s.unifyTriple t u = some s' ∧ s'.Acyclic ∧ s.ExtendedBy s' ∧ t.map s'.reify = u) ∨
      s.unifyTriple t u = none ∧ ∀ τ, s.RespectedBy τ → t.map (subst τ) ≠ u := by
  have hvalue (τ : Nat → Term) : u.map (subst τ) = u := Triple.map_of_isGround hu fun w hw => subst_of_isGround hw τ
  cases h : s.unifyTriple t u with
  | none =>
    refine .inr ⟨rfl, fun τ hτ heq => ?_⟩
    exact not_equal_of_unifyTriple_eq_none hs h hτ (heq.trans (hvalue τ).symm)
  | some s' =>
    have hunified := unified_of_unifyTriple hs h
    have hequal := (equal_of_unifyTriple hs h).2
    have hreify : s'.reify = subst s'.value := funext fun t => s'.reify_eq_subst t
    exact .inl ⟨s', rfl, hunified.acyclic, hunified.extended, by rw [hreify, hequal, hvalue]⟩

namespace Store

variable {st : Store} {s : Bindings} {n : Nat} {t : Triple}
  {call : Bindings → Nat → List Goal → Resolution (Bindings × Nat)} {rest : Bindings × Nat → Resolution (Bindings × Nat)}

/-- No rule derives the attribute: every rule has a ground attribute in its head, and another one. -/
def Underived (st : Store) (attr : Term) : Prop :=
  ∀ r, .rule r ∈ st.entries → r.head.attr.isGround = true ∧ r.head.attr ≠ attr

theorem underived_of_facts (hfacts : ∀ r, .rule r ∉ st.entries) (attr : Term) : st.Underived attr :=
  fun r hr => absurd hr (hfacts r)

/-- Another fact changes nothing here. -/
theorem Underived.push {attr : Term} (h : st.Underived attr) (u : Triple) (ground : u.isGround = true) :
    (st.push (.fact u ground)).Underived attr := by
  intro r hr
  rw [Store.push, Array.mem_push] at hr
  rcases hr with hr | hr
  · exact h r hr
  · cases hr

/-- Uses a fact for a pattern; `rest` goes on from there. -/
def resolveFact (s : Bindings) (n : Nat) (t : Triple) (rest : Bindings × Nat → Resolution (Bindings × Nat))
    (u : Triple) : Resolution (Bindings × Nat) :=
  match s.unifyTriple t u with
  | some s' => rest (s', n)
  | none => .empty

theorem resolveEntry_fact (u : Triple) (ground : u.isGround = true) :
    resolveEntry call s n t rest (.fact u ground) = resolveFact s n t rest u := by
  rw [resolveEntry, resolveFact]
  dsimp only [Entry.headAt]
  cases s.unifyTriple t u <;> rfl

/-- A rule for another attribute is not used. -/
theorem resolveEntry_rule (ht : t.attr.isGround = true) {r : Rule} (hr : r.head.attr.isGround = true)
    (hne : r.head.attr ≠ t.attr) : resolveEntry call s n t rest (.rule r) = .empty := by
  have hhead : (r.headAt n).attr = r.head.attr := rename_of_isGround hr _
  rw [resolveEntry]
  cases hu : s.unifyTriple t ((Entry.rule r).headAt n) with
  | none => rfl
  | some s' =>
    have heq : t.attr = (r.headAt n).attr := Bindings.attr_eq_of_unifyTriple ht (hhead ▸ hr) hu
    exact absurd (heq.trans hhead).symm hne

/-- **A pattern of an attribute that no rule derives** is resolved by the facts, in their order. -/
theorem resolveGoals_underived (h : st.Underived t.attr) (ht : t.attr.isGround = true) (goals : List Goal) :
    st.resolveGoals .fullScan call (.pattern t :: goals) (s, n)
      = .concat (st.facts.map (resolveFact s n t (st.resolveGoals .fullScan call goals))) := by
  have htried : ∀ entries : List Entry,
      (∀ r, .rule r ∈ entries → r.head.attr.isGround = true ∧ r.head.attr ≠ t.attr) →
      Resolution.concat (entries.map (resolveEntry call s n t (st.resolveGoals .fullScan call goals)))
        = .concat ((entries.filterMap Entry.fact?).map
            (resolveFact s n t (st.resolveGoals .fullScan call goals))) := by
    intro entries hentries
    induction entries with
    | nil => rfl
    | cons e entries ih =>
      have hrest := ih fun r hr => hentries r (List.mem_cons_of_mem _ hr)
      cases e with
      | fact u ground =>
        rw [List.map_cons, resolveEntry_fact, List.filterMap_cons_some (f := Entry.fact?) rfl, List.map_cons]
        exact congrArg (Resolution.andThen _) hrest
      | rule r =>
        obtain ⟨hground, hne⟩ := hentries r List.mem_cons_self
        rw [List.map_cons, resolveEntry_rule ht hground hne, List.filterMap_cons_none (f := Entry.fact?) rfl]
        exact hrest
  rw [resolveGoals, map_resolveAt_candidates]
  exact htried _ fun r hr => h r (Array.mem_toList_iff.1 hr)

end Store

end TripleStore
