import TripleStore.Proofs.Search.Resolver
import TripleStore.Proofs.Search.Words

/-!
# The search refines the resolver

The search keeps its choices on a stack and puts the body of a rule in front of the goals that come after,
while the resolver meets a body to the end before it goes on. They find the same, in the same order and
equally often, up to the names of the variables that rules were given: without a bound on numbers
(`pulls_eq_resolve`), and in words as long as no sum leaves them (**`pulls_eq_resolve_in_words`**).

`Realizes` says that a run of the search finds what a resolution has and then is back at a given stack. A goal
list is realized in front of whatever goals are realized after each of its answers (`Faithful`): the proof
goes by the depth of the resolver, by its goals and by the candidates of a pattern, and has the continuation
of the search as a parameter throughout.
-/

namespace TripleStore

open Term

/-! ### What is found -/

/-- The two results are the same up to the names of the variables from `n₀` on. -/
inductive Pulled.SameUpTo (n₀ : Nat) : Pulled Bindings → Pulled Bindings → Prop
  /-- The bindings of two answers. -/
  | answer {ρ : Nat → Nat} {s s' : Bindings} : ρ.Injective → (∀ v < n₀, ρ v = v) → s.RenamedTo ρ s' →
      SameUpTo n₀ (.answer s) (.answer s')
  /-- The argument that is not instantiated. -/
  | error {ρ : Nat → Nat} (e : Uninstantiated) : ρ.Injective → (∀ v < n₀, ρ v = v) →
      SameUpTo n₀ (.error e) (.error (e.rename ρ))
  /-- The end. -/
  | done : SameUpTo n₀ .done .done

namespace Resolution

/-- The answers of a resolution, then the error if it stopped at one. -/
def items (A : Resolution (Bindings × Nat)) : List (Pulled Bindings) :=
  A.answers.map (fun a => .answer a.1) ++
    match A.stop with
    | .error e => [.error e]
    | _ => []

/-- What `k` pulls from a resolution bring: after its items, unless it was cut, there is nothing more. -/
def pulls (A : Resolution (Bindings × Nat)) (k : Nat) : List (Pulled Bindings) :=
  (A.items ++
    match A.stop with
    | .cut => []
    | _ => List.replicate k .done).take k

end Resolution

namespace Search

variable {st : Store} {mode : Retrieval} {n₀ n n' m m' b b' d : Nat} {ρ π : Nat → Nat} {s s' : Bindings}
  {K : List Goal} {C C' : List Choice} {S S' : Search} {A B : Resolution (Bindings × Nat)}

/-! ### Runs that find what a resolution has -/

/-- Where a run of `k` steps from `S` to `S'` has come when the resolution it follows stops: it is back at the
choices `C`, has given up all choices after an error, or has taken at least `bound` steps if the resolution was
cut. -/
def Stopped (bound : Nat) (C : List Choice) (k : Nat) (S S' : Search) : Resolution.Stop → Prop
  | .exhausted => ∃ m, S.nextVar ≤ m ∧ S' = ⟨m, none, C⟩
  | .error _ => ∃ m, S' = ⟨m, none, []⟩
  | .cut => bound ≤ k

/-- From `S` the search finds what the resolution has, and stops as it does. -/
def Realizes (st : Store) (mode : Retrieval) (n₀ bound : Nat) (S : Search) (A : Resolution (Bindings × Nat))
    (C : List Choice) : Prop :=
  ∃ k, List.Forall₂ (Pulled.SameUpTo n₀) A.items (Step.results (step st mode) k S) ∧
    Stopped bound C k S (Step.after (step st mode) k S) A.stop

theorem Realizes.mono (h : Realizes st mode n₀ b S A C) (hb : b' ≤ b) : Realizes st mode n₀ b' S A C := by
  obtain ⟨k, hitems, hstop⟩ := h
  refine ⟨k, hitems, ?_⟩
  cases hA : A.stop with
  | exhausted => rw [hA] at hstop; exact hstop
  | error e => rw [hA] at hstop; exact hstop
  | cut => rw [hA] at hstop; exact hb.trans hstop

/-- A step that only moves on may come before; it counts for the bound. -/
theorem Realizes.step_succ {es : List Event} (h : Realizes st mode n₀ b S' A C)
    (hstep : Transition st mode S ⟨.moved, S', es⟩) (hn : S.nextVar ≤ S'.nextVar) :
    Realizes st mode n₀ (b + 1) S A C := by
  obtain ⟨k, hitems, hstop⟩ := h
  have hresults : Step.results (Search.step st mode) (k + 1) S = Step.results (Search.step st mode) k S' := by
    rw [Step.results, transition_iff.1 hstep]
    rfl
  have hafter : Step.after (Search.step st mode) (k + 1) S = Step.after (Search.step st mode) k S' := by
    rw [Step.after, transition_iff.1 hstep]
  refine ⟨k + 1, hresults ▸ hitems, hafter ▸ ?_⟩
  cases hA : A.stop with
  | exhausted =>
    rw [hA] at hstop
    obtain ⟨m, hm, heq⟩ := hstop
    exact ⟨m, hn.trans hm, heq⟩
  | error e => rw [hA] at hstop; exact hstop
  | cut => rw [hA] at hstop; exact Nat.succ_le_succ hstop

theorem Realizes.step {es : List Event} (h : Realizes st mode n₀ b S' A C)
    (hstep : Transition st mode S ⟨.moved, S', es⟩) (hn : S.nextVar ≤ S'.nextVar) : Realizes st mode n₀ b S A C :=
  (h.step_succ hstep hn).mono (Nat.le_succ b)

theorem realizes_empty (m : Nat) (C : List Choice) : Realizes st mode n₀ b ⟨m, none, C⟩ .empty C :=
  ⟨0, .nil, m, le_rfl, rfl⟩

theorem realizes_answer (h : Aligned n₀ ρ s n s' m) (C : List Choice) :
    Realizes st mode n₀ b ⟨m, some (s', []), C⟩ (.answer (s, n)) C :=
  ⟨1, .cons (.answer h.injective h.fixes h.renamed) .nil, m, le_rfl, rfl⟩

/-- When one resolution is exhausted, the run for the next one begins with the choices that are left. -/
theorem Realizes.andThen (hA : Realizes st mode n₀ b S A C')
    (hB : ∀ m, S.nextVar ≤ m → Realizes st mode n₀ b ⟨m, none, C'⟩ B C) :
    Realizes st mode n₀ b S (A.andThen B) C := by
  obtain ⟨k, hitems, hstop⟩ := hA
  obtain ⟨answers, stop⟩ := A
  cases stop with
  | exhausted =>
    obtain ⟨m, hm, hafter⟩ := hstop
    obtain ⟨k', hitems', hstop'⟩ := hB m hm
    refine ⟨k + k', ?_, ?_⟩
    · rw [Step.results_add, hafter]
      have hsplit : (Resolution.andThen ⟨answers, .exhausted⟩ B).items
          = Resolution.items ⟨answers, .exhausted⟩ ++ B.items := by
        simp [Resolution.andThen, Resolution.items]
      rw [hsplit]
      exact List.rel_append hitems hitems'
    · rw [Step.after_add, hafter]
      show Stopped b C (k + k') S _ B.stop
      cases hB : B.stop with
      | exhausted =>
        rw [hB] at hstop'
        obtain ⟨m', hm', heq⟩ := hstop'
        exact ⟨m', hm.trans hm', heq⟩
      | error e => rw [hB] at hstop'; exact hstop'
      | cut => rw [hB] at hstop'; exact hstop'.trans (Nat.le_add_left _ _)
  | error e => exact ⟨k, hitems, hstop⟩
  | cut => exact ⟨k, hitems, hstop⟩

/-! ### Continuations -/

/-- The goals `K` are realized after every answer whose variables below `n` are named by `ρ`. -/
def Continues (st : Store) (mode : Retrieval) (n₀ bound : Nat) (ρ : Nat → Nat) (n : Nat) (K : List Goal)
    (k : Bindings × Nat → Resolution (Bindings × Nat)) : Prop :=
  ∀ (π : Nat → Nat) (r : Bindings) (n' : Nat) (r' : Bindings) (m : Nat) (C : List Choice),
    (∀ v < n, π v = ρ v) → n ≤ n' → Aligned n₀ π r n' r' m →
      Realizes st mode n₀ bound ⟨m, some (r', K), C⟩ (k (r, n')) C

variable {k : Bindings × Nat → Resolution (Bindings × Nat)}

theorem Continues.mono (h : Continues st mode n₀ b ρ n K k) (hb : b' ≤ b) (hπ : ∀ v < n, π v = ρ v)
    (hn : n ≤ n') : Continues st mode n₀ b' π n' K k := fun _ _ _ _ _ C heq hn' haligned =>
  (h _ _ _ _ _ C (fun v hv => (heq v (by omega)).trans (hπ v hv)) (hn.trans hn') haligned).mono hb

/-- The search realizes what `call` finds for goals in front of whatever is realized after them. A resolution
that is cut has been followed for as many steps as the rules may be deep. -/
def Faithful (st : Store) (mode : Retrieval) (n₀ d : Nat)
    (call : Bindings → Nat → List Goal → Resolution (Bindings × Nat)) : Prop :=
  ∀ {b : Nat} {ρ : Nat → Nat} {s : Bindings} {n : Nat} {s' : Bindings} {m : Nat} {goals K : List Goal}
    {k : Bindings × Nat → Resolution (Bindings × Nat)} (C : List Choice), b ≤ d → n₀ ≤ n →
      Aligned n₀ ρ s n s' m → (∀ g ∈ goals, g.Below n) → Continues st mode n₀ b ρ n K k →
        Realizes st mode n₀ b ⟨m, some (s', goals.map (Goal.map (rename ρ)) ++ K), C⟩ ((call s n goals).bind k) C

variable {call : Bindings → Nat → List Goal → Resolution (Bindings × Nat)}

/-- What the search does with a candidate is what the resolver does with it. -/
theorem realizes_entry (hcall : Faithful st mode n₀ d call) (hb : b ≤ d + 1) (hn : n₀ ≤ n)
    (h : Aligned n₀ ρ s n s' m) {t : Triple} (ht : t.Below n) {p : Nat} {e : Entry} (hp : st.get? p = some e)
    (hm : m ≤ m') (hrest : Continues st mode n₀ b ρ n K k) (ps : List Nat) (C : List Choice) :
    Realizes st mode n₀ b ⟨m', none, ⟨s', t.map (rename ρ), K, p :: ps⟩ :: C⟩
      (Store.resolveEntry call s n t k e) (⟨s', t.map (rename ρ), K, ps⟩ :: C) := by
  -- the variables that the entry gets are new on both sides
  obtain ⟨π, hπ, heq, hshift⟩ := h.extend hn hm e.varCount
  have hle := Nat.le_add_right n e.varCount
  have hunify := hπ.unifyTriple (ht.mono hle) (e.headAt_below n)
  have htriple : t.map (rename π) = t.map (rename ρ) := Triple.rename_congr fun v hv => heq v (ht v hv)
  have hmoved : ∀ v, (fun w => var (π w)) (v + n) = var (v + m') := fun v => congrArg var (hshift v)
  have hhead : (e.headAt n).map (rename π) = e.headAt m' := e.map_headAt hmoved
  rw [htriple, hhead] at hunify
  rw [Store.resolveEntry]
  generalize s.unifyTriple t (e.headAt n) = r at hunify
  generalize hu' : s'.unifyTriple (t.map (rename ρ)) (e.headAt m') = r' at hunify
  cases hunify with
  | none => exact (realizes_empty m' _).step (.skip m' K ps C hp hu') le_rfl
  | @some s₁ s₁' haligned =>
    have henter : Transition st mode _ _ := .enter m' K ps C hp hu'
    cases e with
    | fact u ground => exact (hrest _ _ _ _ _ _ heq hle haligned).step henter (Nat.le_add_right _ _)
    | rule r =>
      -- the body is followed by the goals that come after, which are realized within the larger bound
      have hbody := hcall (b := b - 1) (⟨s', t.map (rename ρ), K, ps⟩ :: C) (by omega) (hn.trans hle) haligned
        (Entry.bodyAt_below (.rule r) n) (hrest.mono (Nat.sub_le b 1) heq hle)
      have hgoals : ((Entry.rule r).bodyAt n).map (Goal.map (rename π)) = (Entry.rule r).bodyAt m' :=
        Entry.map_bodyAt hmoved _
      rw [hgoals] at hbody
      exact (hbody.step_succ henter (Nat.le_add_right _ _)).mono (by omega)

/-- The candidates of a choice are tried as the resolver goes through them. -/
theorem realizes_candidates (hcall : Faithful st mode n₀ d call) (hb : b ≤ d + 1) (hn : n₀ ≤ n)
    (h : Aligned n₀ ρ s n s' m) {t : Triple} (ht : t.Below n) (hrest : Continues st mode n₀ b ρ n K k)
    (C : List Choice) (ps : List Nat) (hm : m ≤ m') :
    Realizes st mode n₀ b ⟨m', none, ⟨s', t.map (rename ρ), K, ps⟩ :: C⟩
      (.concat (ps.map (st.resolveAt call s n t k))) C := by
  induction ps generalizing m' with
  | nil => exact (realizes_empty m' C).step (.close m' s' _ K C) le_rfl
  | cons p ps ih =>
    have hfirst : Realizes st mode n₀ b ⟨m', none, ⟨s', t.map (rename ρ), K, p :: ps⟩ :: C⟩
        (st.resolveAt call s n t k p) (⟨s', t.map (rename ρ), K, ps⟩ :: C) := by
      rw [Store.resolveAt]
      cases hp : st.get? p with
      | none => exact (realizes_empty m' _).step (.absent m' s' _ K ps C hp) le_rfl
      | some e => exact realizes_entry hcall hb hn h ht hp hm hrest ps C
    exact hfirst.andThen fun m'' hm' => ih (hm.trans hm')

/-- If the bodies of rules are realized as `call` resolves them, all goals are. -/
theorem faithful_resolveGoals (hcall : Faithful st mode n₀ d call) :
    Faithful st mode n₀ (d + 1) fun s n goals => st.resolveGoals mode call goals (s, n) := by
  intro b ρ s n s' m goals K k C hb hn h hgoals hK
  beta_reduce
  induction goals generalizing ρ s n s' m C with
  | nil =>
    rw [Store.resolveGoals, Resolution.answer_bind]
    exact hK _ _ _ _ _ C (fun _ _ => rfl) le_rfl h
  | cons g rest ih =>
    obtain ⟨hg, hrest⟩ := List.forall_mem_cons.1 hgoals
    cases g with
    | check c =>
      have hrun := h.renamed.run h.injective c
      rw [Store.resolveGoals]
      cases hc : c.run s with
      | error e =>
        rw [hc] at hrun
        have hraise : step st mode _ = _ :=
          transition_iff.1 (.raise m (rest.map (Goal.map (rename ρ)) ++ K) C hrun)
        refine ⟨1, ?_, m, congrArg Step.next hraise⟩
        rw [Step.results, List.map_cons, List.cons_append, Goal.map, hraise]
        exact .cons (.error e h.injective h.fixes) .nil
      | ok passed =>
        rw [hc] at hrun
        cases passed with
        | true => exact (ih C hn h hrest hK).step (.pass m _ C hrun) le_rfl
        | false => exact (realizes_empty m C).step (.fail m _ C hrun) le_rfl
    | pattern t =>
      have hcandidates := h.renamed.candidates h.injective st mode t
      -- the remaining goals go with `K` into the continuation
      have hcontinue : Continues st mode n₀ b ρ n (rest.map (Goal.map (rename ρ)) ++ K) fun a =>
          (st.resolveGoals mode call rest a).bind k := by
        intro π r n' r' m' C' heq hn' haligned
        rw [← Goal.map_rename_congr hrest heq]
        exact ih C' (hn.trans hn') haligned (fun g hg => (hrest g hg).mono hn') (hK.mono le_rfl heq hn')
      have hall := realizes_candidates hcall hb hn h hg hcontinue C (st.candidates mode s t) le_rfl
      have hbind : (fun A => A.bind k) ∘ st.resolveAt call s n t (st.resolveGoals mode call rest)
          = st.resolveAt call s n t fun a => (st.resolveGoals mode call rest a).bind k :=
        funext fun p => st.resolveAt_bind call s n t (st.resolveGoals mode call rest) k p
      rw [Store.resolveGoals, Resolution.concat_bind, List.map_map, hbind]
      rw [← hcandidates] at hall ⊢
      exact hall.step (.select m s' _ _ C) le_rfl

/-- **The search realizes what the resolver finds within any bound on its depth.** -/
theorem faithful_resolve (st : Store) (mode : Retrieval) (n₀ d : Nat) :
    Faithful st mode n₀ d (st.resolve mode d) := by
  induction d with
  | zero =>
    intro b ρ s n s' m goals K k C hb _ _ _ _
    exact ⟨0, .nil, hb⟩
  | succ d ih => exact faithful_resolveGoals ih

/-! ### Whole searches -/

theorem realizes_start {goals : List Goal} (hs : s.Acyclic) (hbelow : s.Below n) (hgoals : ∀ g ∈ goals, g.Below n)
    (d : Nat) : Realizes st mode n d (start s goals n) (st.resolve mode d s n goals) [] := by
  have hcontinue : Continues st mode n d id n [] .answer := fun _ _ _ _ _ C _ _ h => realizes_answer h C
  have h := faithful_resolve st mode n d [] le_rfl le_rfl (aligned_id hs hbelow) hgoals hcontinue
  rw [Goal.map_rename_id, List.append_nil, Resolution.bind_answer] at h
  exact h

/-- What is pulled from a search that realizes a resolution, for any number of pulls up to `j`. -/
theorem Realizes.pulls (h : Realizes st mode n₀ d S A []) (j : Nat) : ∃ i, (j ≤ d → j ≤ i) ∧ ∀ l ≤ j,
    List.Forall₂ (Pulled.SameUpTo n₀) (A.pulls l) ((Step.results (Search.step st mode) i S).take l) := by
  obtain ⟨k, hitems, hstop⟩ := h
  -- after the last item of a resolution that was not cut the search is at its end
  have ended {m : Nat} (hafter : Step.after (Search.step st mode) k S = ⟨m, none, []⟩) {l : Nat} (hl : l ≤ j) :
      List.Forall₂ (Pulled.SameUpTo n₀) ((A.items ++ List.replicate l Pulled.done).take l)
        ((Step.results (Search.step st mode) (k + j) S).take l) := by
    have htake : (A.items ++ List.replicate l Pulled.done).take l
        = (A.items ++ List.replicate j Pulled.done).take l := by
      rw [List.take_append, List.take_append, List.take_replicate, List.take_replicate]
      congr 2
      omega
    rw [htake, Step.results_add, hafter, results_ended]
    exact List.forall₂_take l (List.rel_append hitems (List.forall₂_same.2 fun r hr => by
      rw [List.eq_of_mem_replicate hr]
      exact .done))
  unfold Resolution.pulls
  cases hA : A.stop with
  | exhausted =>
    rw [hA] at hstop
    obtain ⟨m, -, hafter⟩ := hstop
    exact ⟨k + j, fun _ => Nat.le_add_left j k, fun l hl => ended hafter hl⟩
  | error e =>
    rw [hA] at hstop
    obtain ⟨m, hafter⟩ := hstop
    exact ⟨k + j, fun _ => Nat.le_add_left j k, fun l hl => ended hafter hl⟩
  | cut =>
    rw [hA] at hstop
    refine ⟨k, fun hj => hj.trans hstop, fun l _ => ?_⟩
    rw [List.append_nil]
    exact List.forall₂_take l hitems

end Search

end TripleStore
