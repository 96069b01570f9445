import TripleStore.Proofs.Search.GoalOrder
import TripleStore.Proofs.Search.RangeRestriction
import TripleStore.Proofs.Search.Termination
import TripleStore.Proofs.Store.Facts

/-!
# Transitive closure

Two rules make an attribute the transitive closure of another (`Rule.Begins`, `Rule.Extends`), in a store that has no
other rules (`Store.Closes`). The second of them uses the attribute that it defines, so rules are not in layers here.
What falls is the rank of the term that a question is about: each use of the second rule goes along an edge before it
asks again. So a question about the closure is exhausted within a depth that the number of facts bounds
(`Store.Closes.stop_related`, `Store.Closes.stop_length`), whatever the ends of the question are.
-/

namespace TripleStore

open Term Relation

/-! ### Two rules -/

/-- The rule `(x, r, y) :- (x, p, y)`. -/
def Rule.Begins (p r : Term) (rule : Rule) : Prop :=
  ∃ x y, x ≠ y ∧ rule.head = ⟨.var x, r, .var y⟩ ∧ rule.body = [.pattern ⟨.var x, p, .var y⟩]

/-- The rule `(x, r, y) :- (x, p, z), (z, r, y)`. -/
def Rule.Extends (p r : Term) (rule : Rule) : Prop :=
  ∃ x y z, x ≠ y ∧ x ≠ z ∧ y ≠ z ∧ rule.head = ⟨.var x, r, .var y⟩ ∧
    rule.body = [.pattern ⟨.var x, p, .var z⟩, .pattern ⟨.var z, r, .var y⟩]

/-- The body of a use of the rule. -/
theorem Rule.Begins.exists_bodyAt {p r : Term} {rule : Rule} (h : rule.Begins p r) (hp : p.isGround = true) (n : Nat) :
    ∃ x y, rule.bodyAt n = [.pattern ⟨.var x, p, .var y⟩] := by
  obtain ⟨x, y, -, -, hbody⟩ := h
  have hp : p.shift n = p := rename_of_isGround hp _
  refine ⟨x + n, y + n, ?_⟩
  rw [bodyAt, hbody]
  show [Goal.pattern ⟨.var (x + n), p.shift n, .var (y + n)⟩] = _
  rw [hp]

/-- The head and the body of a use of the rule. -/
theorem Rule.Extends.exists_bodyAt {p r : Term} {rule : Rule} (h : rule.Extends p r) (hp : p.isGround = true)
    (hr : r.isGround = true) (n : Nat) : ∃ x y z, rule.headAt n = ⟨.var x, r, .var y⟩ ∧
      rule.bodyAt n = [.pattern ⟨.var x, p, .var z⟩, .pattern ⟨.var z, r, .var y⟩] := by
  obtain ⟨x, y, z, -, -, -, hhead, hbody⟩ := h
  have hp : p.shift n = p := rename_of_isGround hp _
  have hr : r.shift n = r := rename_of_isGround hr _
  refine ⟨x + n, y + n, z + n, ?_⟩
  rw [headAt, bodyAt, hhead, hbody]
  show (⟨.var (x + n), r.shift n, .var (y + n)⟩ : Triple) = _ ∧ [Goal.pattern ⟨.var (x + n), p.shift n, .var (z + n)⟩,
    .pattern ⟨.var (z + n), r.shift n, .var (y + n)⟩] = _
  rw [hp, hr]
  exact ⟨rfl, rfl⟩

namespace Store

variable {st : Store} {p r : Term}

/-- A store that makes `r` the transitive closure of `p`: besides the two rules it has facts only, in any order and none
of them of `r`, and the relation that the facts of `p` make has no cycle. -/
structure Closes (st : Store) (p r : Term) : Prop where
  reachable : st.Reachable
  ground : p.isGround = true
  ground' : r.isGround = true
  ne : r ≠ p
  entries : ∃ short long facts, short.Begins p r ∧ long.Extends p r ∧
    st.entries.toList.Perm (.rule short :: .rule long :: facts) ∧
      ∀ e ∈ facts, ∃ t ground, e = .fact t ground ∧ t.attr ≠ r
  acyclic : ∀ x, ¬TransGen (st.Edge p) x x

/-- What may stand in such a store. -/
theorem Closes.mem_cases (h : st.Closes p r) {e : Entry} (he : e ∈ st.entries) :
    (∃ rule, e = .rule rule ∧ (rule.Begins p r ∨ rule.Extends p r)) ∨ ∃ t ground, e = .fact t ground ∧ t.attr ≠ r := by
  obtain ⟨short, long, facts, hshort, hlong, hperm, hfacts⟩ := h.entries
  rw [← Array.mem_toList_iff, hperm.mem_iff, List.mem_cons, List.mem_cons] at he
  rcases he with rfl | rfl | he
  · exact .inl ⟨_, rfl, .inl hshort⟩
  · exact .inl ⟨_, rfl, .inr hlong⟩
  · exact .inr (hfacts e he)

/-! ### The search ends -/

variable {call : Bindings → Nat → List Goal → Resolution (Bindings × Nat)} {rest : List Goal} {s s' : Bindings}
  {n k : Nat} {t : Triple}

/-- A pattern is exhausted when each entry that it unifies with is. -/
theorem stop_pattern (h : ∀ e ∈ st.entries, ∀ s', s.unifyTriple t (e.headAt n) = some s' →
    (resolveEntry call s n t (st.resolveGoals .fullScan call rest) e).stop = .exhausted) :
    (st.resolveGoals .fullScan call (.pattern t :: rest) (s, n)).stop = .exhausted := by
  rw [resolveGoals, map_resolveAt_candidates]
  refine Resolution.concat_exhausted_iff.2 (List.forall_mem_map.2 fun e he => ?_)
  cases hu : s.unifyTriple t (e.headAt n) with
  | none =>
    rw [resolveEntry, hu]
    rfl
  | some s' => exact h e (Array.mem_toList_iff.1 he) s' hu

/-- The attribute of an entry that a pattern of a ground attribute unifies with. -/
theorem attr_of_unifyTriple {e : Entry} (ht : t.attr.isGround = true) (he : e.head.attr.isGround = true)
    (hu : s.unifyTriple t (e.headAt n) = some s') : e.head.attr = t.attr := by
  have hattr : (e.headAt n).attr = e.head.attr := by
    rw [Entry.headAt_eq_shift]
    exact rename_of_isGround he _
  rw [← hattr] at he ⊢
  exact (Bindings.attr_eq_of_unifyTriple ht he hu).symm

/-- A pattern of `p` is exhausted when what comes after it is, with the ends of each edge. -/
theorem Closes.stop_edge (h : st.Closes p r) (hs : s.Acyclic) {a b : Term}
    (hrest : ∀ x y s', st.Edge p x y → s'.Acyclic →
      (∀ τ, s'.RespectedBy τ → s.RespectedBy τ ∧ a.subst τ = x ∧ b.subst τ = y) →
      (st.resolveGoals .fullScan call rest (s', n)).stop = .exhausted) :
    (st.resolveGoals .fullScan call (.pattern ⟨a, p, b⟩ :: rest) (s, n)).stop = .exhausted := by
  refine stop_pattern fun e he s' hu => ?_
  have hs' := (Bindings.unified_of_unifyTriple hs hu).acyclic
  rcases h.mem_cases he with ⟨rule, rfl, hrule⟩ | ⟨⟨x, q, y⟩, ground, rfl, -⟩
  · -- the heads of the rules have another attribute
    have hattr : rule.head.attr = r := by
      rcases hrule with ⟨x, y, -, hhead, -⟩ | ⟨x, y, z, -, -, -, hhead, -⟩ <;> rw [hhead]
    have hp : r = p := hattr ▸ attr_of_unifyTriple h.ground (e := .rule rule) (hattr ▸ h.ground') hu
    exact absurd hp h.ne
  · have hground := Triple.isGround_iff.1 ground
    obtain rfl : q = p := attr_of_unifyTriple h.ground (e := .fact _ ground) hground.2.1 hu
    rw [resolveEntry, hu]
    refine hrest x y s' (edge_iff_mem_facts.2 (mem_facts_iff.2 ⟨ground, he⟩)) hs' fun τ hτ => ?_
    obtain ⟨hrespects, heq⟩ := (Bindings.respectedBy_iff_of_unifyTriple hs hu τ).1 hτ
    rw [Entry.headAt, Triple.map_of_isGround ground fun u hu => subst_of_isGround hu τ] at heq
    exact ⟨hrespects, congrArg Triple.entity heq, congrArg Triple.value heq⟩

/-- A question about `r` is exhausted when the question that is left after an edge is. -/
theorem Closes.stop_uses (h : st.Closes p r) (hs : s.Acyclic) {a b : Term} {d : Nat}
    (hlater : ∀ x y s' n' c b', st.Edge p x y → s'.Acyclic →
      (∀ τ, s'.RespectedBy τ → s.RespectedBy τ ∧ a.subst τ = x ∧ c.subst τ = y) →
      (st.resolve .fullScan (d + 1) s' n' [.pattern ⟨c, r, b'⟩]).stop = .exhausted) :
    (st.resolve .fullScan (d + 2) s n [.pattern ⟨a, r, b⟩]).stop = .exhausted := by
  refine stop_pattern fun e he s₁ hu => ?_
  have hs₁ := (Bindings.unified_of_unifyTriple hs hu).acyclic
  rcases h.mem_cases he with ⟨rule, rfl, hrule⟩ | ⟨t, ground, rfl, hne⟩
  · have hbody : ((st.resolve .fullScan (d + 1) s₁ (n + rule.varCount) (rule.bodyAt n)).bind
        (st.resolveGoals .fullScan (st.resolve .fullScan (d + 1)) [])).stop = .exhausted := by
      show (Resolution.bind _ Resolution.answer).stop = _
      rw [Resolution.bind_answer]
      rcases hrule with hrule | hrule
      · obtain ⟨x, y, hbody⟩ := hrule.exists_bodyAt h.ground n
        rw [hbody]
        exact h.stop_edge hs₁ fun _ _ _ _ _ _ => rfl
      · obtain ⟨x, y, z, hhead, hbody⟩ := hrule.exists_bodyAt h.ground h.ground' n
        rw [hbody]
        refine h.stop_edge hs₁ fun x' z' s₂ hedge hs₂ hτ => hlater x' z' s₂ _ _ _ hedge hs₂ fun τ hτ₂ => ?_
        obtain ⟨hτ₁, hx, hz⟩ := hτ τ hτ₂
        obtain ⟨hrespects, heq⟩ := (Bindings.respectedBy_iff_of_unifyTriple hs hu τ).1 hτ₁
        rw [Entry.headAt, hhead] at heq
        exact ⟨hrespects, (congrArg Triple.entity heq).trans hx, hz⟩
    rw [resolveEntry, hu]
    exact hbody
  · have hground := Triple.isGround_iff.1 ground
    exact absurd (attr_of_unifyTriple h.ground' (e := .fact t ground) hground.2.1 hu) hne

/-- **A question about `r` is exhausted** within a depth that is larger than the ranks of the terms one edge after the
entities that it may be about. -/
theorem Closes.stop_related (h : st.Closes p r) {a b : Term} (hs : s.Acyclic)
    (hrank : ∀ τ, s.RespectedBy τ → ∀ x, st.Edge p (a.subst τ) x → st.rank p x < k) :
    (st.resolve .fullScan (k + 2) s n [.pattern ⟨a, r, b⟩]).stop = .exhausted := by
  induction k generalizing s n a b with
  | zero =>
    refine h.stop_uses hs fun x y s' n' c b' hedge hs' hτ => ?_
    obtain ⟨hrespects, hx, -⟩ := hτ _ hs'.respectedBy_value
    exact absurd (hrank _ hrespects y (hx ▸ hedge)) (Nat.not_lt_zero _)
  | succ k ih =>
    refine h.stop_uses hs fun x y s' n' c b' hedge hs' hτ => ih hs' fun τ hτ' z hz => ?_
    obtain ⟨hrespects, hx, hy⟩ := hτ τ hτ'
    have hlt := hrank τ hrespects y (hx ▸ hedge)
    have hfalls := rank_lt_rank h.acyclic (hy ▸ hz)
    omega

theorem Closes.stop_length (h : st.Closes p r) (a b : Term) (n : Nat) :
    (st.resolve .fullScan (st.facts.length + 3) .empty n [.pattern ⟨a, r, b⟩]).stop = .exhausted :=
  h.stop_related Bindings.acyclic_empty fun _ _ x _ => Nat.lt_succ_of_le (rank_le st p x)

end Store

end TripleStore
