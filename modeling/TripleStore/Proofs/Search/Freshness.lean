import TripleStore.Proofs.Search.Transition
import TripleStore.Proofs.Store.Model

/-!
# Fresh variables

A search gives each use of a rule variables that occur nowhere yet. Everything it has in hand mentions
only variables below its counter (`Fresh`): the bindings and goals of every task do at the start, a use of
an entry at `n` mentions variables below `n + e.varCount` (`Entry.headAt_below`, `Entry.bodyAt_below`), and
unification binds nothing else (`Bindings.Below.unifyTriple`). So it stays (`Fresh.step`).
-/

namespace TripleStore

open Term

variable {n n' : Nat}

/-! ### Variables below a bound -/

def Term.Below (n : Nat) (t : Term) : Prop := ∀ v ∈ t.vars, v < n

def Triple.Below (n : Nat) (t : Triple) : Prop := ∀ v ∈ t.vars, v < n

def Goal.Below (n : Nat) (g : Goal) : Prop := ∀ v ∈ g.vars, v < n

/-- All variables of the bindings, bound or mentioned, are below `n`. -/
def Bindings.Below (n : Nat) (s : Bindings) : Prop := ∀ v t, s.get? v = some t → v < n ∧ t.Below n

theorem Term.Below.mono {t : Term} (h : t.Below n) (hn : n ≤ n') : t.Below n' :=
  fun v hv => (h v hv).trans_le hn

theorem Triple.Below.mono {t : Triple} (h : t.Below n) (hn : n ≤ n') : t.Below n' :=
  fun v hv => (h v hv).trans_le hn

theorem Goal.Below.mono {g : Goal} (h : g.Below n) (hn : n ≤ n') : g.Below n' :=
  fun v hv => (h v hv).trans_le hn

theorem Bindings.Below.mono {s : Bindings} (h : s.Below n) (hn : n ≤ n') : s.Below n' := fun v t hv =>
  ⟨(h v t hv).1.trans_le hn, (h v t hv).2.mono hn⟩

theorem Bindings.below_empty (n : Nat) : Bindings.empty.Below n := fun v t hv => by simp at hv

theorem Bindings.Below.extend {s : Bindings} (h : s.Below n) {v : Nat} {t : Term} (hv : v < n) (ht : t.Below n) :
    (s.extend v t).Below n := by
  intro w u hw
  rw [get?_extend] at hw
  split at hw
  · rename_i heq
    cases hw
    exact ⟨heq ▸ hv, ht⟩
  · exact h w u hw

/-- Bindings do not say anything about variables that do not occur in them. -/
theorem Bindings.RespectedBy.congr {s : Bindings} {τ τ' : Nat → Term} (h : s.RespectedBy τ) (hbelow : s.Below n)
    (heq : ∀ v < n, τ' v = τ v) : s.RespectedBy τ' := by
  intro v t hv
  obtain ⟨hvn, ht⟩ := hbelow v t hv
  rw [heq v hvn, h v t hv]
  exact subst_congr fun w hw => (heq w (ht w hw)).symm

theorem Term.below_of_isGround {t : Term} (h : t.isGround = true) (n : Nat) : t.Below n :=
  fun v hv => absurd hv (isGround_iff.1 h v)

theorem Term.Below.shift {t : Term} {count : Nat} (h : t.Below count) (n : Nat) :
    (t.shift n).Below (n + count) := by
  intro v hv
  rw [shift_eq_rename, mem_vars_rename] at hv
  obtain ⟨w, hw, rfl⟩ := hv
  have := h w hw
  omega

theorem Triple.below_iff {t : Triple} : t.Below n ↔ t.entity.Below n ∧ t.attr.Below n ∧ t.value.Below n := by
  constructor
  · intro h
    exact ⟨fun v hv => h v (Triple.mem_vars.2 (.inl hv)), fun v hv => h v (Triple.mem_vars.2 (.inr (.inl hv))),
      fun v hv => h v (Triple.mem_vars.2 (.inr (.inr hv)))⟩
  · rintro ⟨he, ha, hv⟩ v hmem
    rcases Triple.mem_vars.1 hmem with hmem | hmem | hmem
    · exact he v hmem
    · exact ha v hmem
    · exact hv v hmem

theorem Triple.below_of_isGround {t : Triple} (h : t.isGround = true) (n : Nat) : t.Below n := by
  obtain ⟨he, ha, hv⟩ := Triple.isGround_iff.1 h
  exact below_iff.2 ⟨Term.below_of_isGround he n, Term.below_of_isGround ha n, Term.below_of_isGround hv n⟩

theorem Triple.Below.shift {t : Triple} {count : Nat} (h : t.Below count) (n : Nat) :
    (t.shift n).Below (n + count) := by
  obtain ⟨he, ha, hv⟩ := below_iff.1 h
  exact below_iff.2 ⟨he.shift n, ha.shift n, hv.shift n⟩

theorem Check.args_map (f : Term → Term) (c : Check) : (c.map f).args = c.args.map f := by
  cases c <;> rfl

theorem Goal.Below.shift {g : Goal} {count : Nat} (h : g.Below count) (n : Nat) :
    (g.shift n).Below (n + count) := by
  cases g with
  | pattern t => exact Triple.Below.shift h n
  | check c =>
    intro v hv
    obtain ⟨t, ht, hv⟩ := Check.mem_vars.1 hv
    rw [Check.args_map] at ht
    obtain ⟨u, hu, rfl⟩ := List.mem_map.1 ht
    exact Term.Below.shift (fun w hw => h w (Check.mem_vars.2 ⟨u, hu, hw⟩)) n v hv

/-! ### Entries in use -/

theorem Entry.headAt_below (e : Entry) (n : Nat) : (e.headAt n).Below (n + e.varCount) := by
  cases e with
  | fact t ground => exact Triple.below_of_isGround ground _
  | rule r => exact Triple.Below.shift (r.inScope _ List.mem_cons_self) n

theorem Entry.bodyAt_below (e : Entry) (n : Nat) : ∀ g ∈ e.bodyAt n, g.Below (n + e.varCount) := by
  cases e with
  | fact t ground => exact fun g hg => absurd hg List.not_mem_nil
  | rule r =>
    intro g hg
    rw [bodyAt, Rule.bodyAt] at hg
    obtain ⟨goal, hgoal, rfl⟩ := List.mem_map.1 hg
    exact Goal.Below.shift (r.inScope goal (List.mem_cons_of_mem _ hgoal)) n

section Moved

variable {f : Nat → Term} {m : Nat}

theorem Triple.map_shift (h : ∀ v, f (v + n) = .var (v + m)) (t : Triple) :
    (t.shift n).map (Term.subst f) = t.shift m := by
  simp only [shift, map, Term.subst_shift_eq h]

theorem Goal.map_shift (h : ∀ v, f (v + n) = .var (v + m)) (g : Goal) :
    (g.shift n).map (Term.subst f) = g.shift m := by
  cases g with
  | pattern t => exact congrArg Goal.pattern (Triple.map_shift h t)
  | check c =>
    cases c with
    | distinct left right => simp only [shift, map, Check.map, Term.subst_shift_eq h]
    | assert label args holds =>
      simp only [shift, map, Check.map, List.map_map, Function.comp_def, Term.subst_shift_eq h]

/-- An assignment that takes the range of an entry to another one moves its head there. -/
theorem Entry.map_headAt (h : ∀ v, f (v + n) = .var (v + m)) (e : Entry) :
    (e.headAt n).map (Term.subst f) = e.headAt m := by
  rw [headAt_eq_shift, headAt_eq_shift, Triple.map_shift h]

theorem Entry.map_bodyAt (h : ∀ v, f (v + n) = .var (v + m)) (e : Entry) :
    (e.bodyAt n).map (Goal.map (Term.subst f)) = e.bodyAt m := by
  cases e with
  | fact t ground => rfl
  | rule r =>
    rw [bodyAt, bodyAt, Rule.bodyAt, Rule.bodyAt, List.map_map]
    exact List.map_congr_left fun g _ => Goal.map_shift h g

end Moved

/-- Unification of triples binds and mentions only variables of the bindings and the triples. -/
theorem Bindings.Below.unifyTriple {s s' : Bindings} (hs : s.Acyclic) (h : s.Below n) {a b : Triple}
    (ha : a.Below n) (hb : b.Below n) (hu : s.unifyTriple a b = some s') : s'.Below n := by
  have hpairs : ∀ p ∈ positionPairs a b, p.1.Below n ∧ p.2.Below n := by
    obtain ⟨ha₁, ha₂, ha₃⟩ := Triple.below_iff.1 ha
    obtain ⟨hb₁, hb₂, hb₃⟩ := Triple.below_iff.1 hb
    simp only [positionPairs, Triple.toList, List.zip_cons_cons, List.zip_nil_right, List.mem_cons,
      List.not_mem_nil, or_false]
    rintro p (rfl | rfl | rfl)
    · exact ⟨ha₁, hb₁⟩
    · exact ⟨ha₂, hb₂⟩
    · exact ⟨ha₃, hb₃⟩
  have hereditary : s.Hereditary (Term.Below n) :=
    ⟨fun hitems t ht v hv => hitems v (mem_vars_compound.2 ⟨t, ht, hv⟩), fun hv _ => (h _ _ hv).2⟩
  intro v t hv
  rcases (unified_of_unifyTriple hs hu).new_binding hereditary hpairs v t hv with hv | ⟨hv, ht⟩
  · exact h v t hv
  · exact ⟨hv v (by simp), ht⟩

/-! ### Searches -/

namespace Search

variable {st : Store} {mode : Retrieval}

/-- The bindings of a task are acyclic, and all its variables are below `n`. -/
structure Fresh (n : Nat) (task : Bindings × List Goal) : Prop where
  acyclic : task.1.Acyclic
  bindings : task.1.Below n
  goals : ∀ g ∈ task.2, g.Below n

theorem Fresh.mono {task : Bindings × List Goal} (h : Fresh n task) (hn : n ≤ n') : Fresh n' task :=
  ⟨h.acyclic, h.bindings.mono hn, fun g hg => (h.goals g hg).mono hn⟩

/-- The bindings under which an entry matches a pattern of a fresh task, with its body and the remaining
goals, are a fresh task. -/
theorem Fresh.enter {s s' : Bindings} {t : Triple} {rest : List Goal} (h : Fresh n (s, .pattern t :: rest))
    {e : Entry} (hu : s.unifyTriple t (e.headAt n) = some s') :
    Fresh (n + e.varCount) (s', e.bodyAt n ++ rest) := by
  have hle := Nat.le_add_right n e.varCount
  obtain ⟨ht, hrest⟩ := List.forall_mem_cons.1 h.goals
  refine ⟨(Bindings.unified_of_unifyTriple h.acyclic hu).acyclic, ?_, fun g hg => ?_⟩
  · exact (h.bindings.mono hle).unifyTriple h.acyclic (Triple.Below.mono ht hle) (e.headAt_below n) hu
  · rcases List.mem_append.1 hg with hg | hg
    · exact e.bodyAt_below n g hg
    · exact (hrest g hg).mono hle

theorem Fresh.leads {task task' : Bindings × List Goal} (hl : Leads st n task n' task') (h : Fresh n task) :
    Fresh n' task' := by
  cases hl with
  | stay _ hn => exact h.mono hn
  | pass rest _ => exact ⟨h.acyclic, h.bindings, (List.forall_mem_cons.1 h.goals).2⟩
  | enter rest _ hu => exact h.enter hu

/-- **Every task stays below the counter.** -/
theorem Fresh.step {search : Search} (h : ∀ task ∈ search.tasks, Fresh search.nextVar task) :
    ∀ task ∈ (search.step st mode).next.tasks, Fresh (search.step st mode).next.nextVar task :=
  tasks_invariant Fresh.leads h

end Search

theorem Goal.descendants_below : ∀ g ∈ [descendants], g.Below 1 := by
  simp [descendants, Below, vars, Triple.vars, Triple.toList, varsAll, Term.vars]

end TripleStore
