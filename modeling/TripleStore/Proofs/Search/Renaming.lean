import TripleStore.Proofs.Bindings.Renaming
import TripleStore.Proofs.Search.Freshness

/-!
# Renamed searches

Two searches that take the numbers for the variables of rules from different counters do the same under
different names. Everything that a step asks is answered alike for renamed goals under renamed bindings: checks
(`Bindings.RenamedTo.run`), candidates (`Bindings.RenamedTo.candidates`) and, once the variables of the entry
at hand are paired too (`Aligned.extend`), unification with its head.
-/

namespace TripleStore

open Term

variable {ρ π : Nat → Nat}

/-! ### Renamed goals -/

theorem Triple.rename_congr {t : Triple} (h : ∀ v ∈ t.vars, ρ v = π v) : t.map (rename ρ) = t.map (rename π) :=
  Triple.map_subst_congr fun v hv => by rw [h v hv]

theorem Check.rename_congr {c : Check} (h : ∀ v ∈ c.vars, ρ v = π v) : c.map (rename ρ) = c.map (rename π) := by
  have arg {t : Term} (ht : t ∈ c.args) : t.rename ρ = t.rename π :=
    Term.rename_congr fun v hv => h v (Check.mem_vars.2 ⟨t, ht, hv⟩)
  cases c with
  | distinct left right => rw [map, map, arg (t := left) (by simp [args]), arg (t := right) (by simp [args])]
  | assert label args holds =>
    have hargs : args.map (rename ρ) = args.map (rename π) := List.map_congr_left fun t ht => arg ht
    rw [map, map, hargs]

theorem Goal.rename_congr {g : Goal} (h : ∀ v ∈ g.vars, ρ v = π v) : g.map (rename ρ) = g.map (rename π) := by
  cases g with
  | pattern t => exact congrArg Goal.pattern (Triple.rename_congr h)
  | check c => exact congrArg Goal.check (Check.rename_congr h)

theorem Goal.map_rename_congr {n : Nat} {goals : List Goal} (hgoals : ∀ g ∈ goals, g.Below n)
    (h : ∀ v < n, ρ v = π v) : goals.map (Goal.map (rename ρ)) = goals.map (Goal.map (rename π)) :=
  List.map_congr_left fun g hg => Goal.rename_congr fun v hv => h v (hgoals g hg v hv)

theorem Goal.map_rename_id (goals : List Goal) : goals.map (Goal.map (rename id)) = goals := by
  have term : rename id = id := funext subst_var
  rw [term]
  refine List.map_id'' (fun g => ?_) goals
  cases g with
  | pattern t => rfl
  | check c => cases c <;> simp [map, Check.map]

/-! ### Checks and candidates -/

/-- The error about the renamed argument. -/
def Uninstantiated.rename (ρ : Nat → Nat) (e : Uninstantiated) : Uninstantiated :=
  { e with term := e.term.rename ρ }

namespace Bindings

variable {s s' : Bindings}

theorem RenamedTo.instantiate (hρ : ρ.Injective) (h : s.RenamedTo ρ s') (operator : String) (t : Term) :
    Check.instantiate operator s' (t.rename ρ)
      = (Check.instantiate operator s t).mapError (Uninstantiated.rename ρ) := by
  simp only [Check.instantiate, h.reify hρ, isGround_rename]
  split
  · rename_i hground
    rw [rename_of_isGround hground]
    rfl
  · rfl

/-- A renamed check is decided alike, and an error is about the renamed argument. -/
theorem RenamedTo.run (hρ : ρ.Injective) (h : s.RenamedTo ρ s') (c : Check) :
    (c.map (Term.rename ρ)).run s' = (c.run s).mapError (Uninstantiated.rename ρ) :=
  Check.run_map (h.instantiate hρ) c

end Bindings

theorem Store.indexed_rename (st : Store) (t : Triple) : st.indexed (t.map (rename ρ)) = st.indexed t := by
  simp only [indexed, Triple.map, isGround_rename]
  cases he : t.entity.isGround with
  | true => cases ha : t.attr.isGround with
    | true => simp only [rename_of_isGround he, rename_of_isGround ha]
    | false => simp only [rename_of_isGround he]
  | false => cases ha : t.attr.isGround with
    | true =>
      simp only [rename_of_isGround ha]
      cases hv : t.value.isGround with
      | true => simp only [rename_of_isGround hv]
      | false => rfl
    | false => rfl

/-- A renamed pattern has the same candidates. -/
theorem Bindings.RenamedTo.candidates {s s' : Bindings} (hρ : ρ.Injective) (h : s.RenamedTo ρ s') (st : Store)
    (mode : Retrieval) (t : Triple) : st.candidates mode s' (t.map (Term.rename ρ)) = st.candidates mode s t := by
  cases mode with
  | fullScan => rfl
  | indexed =>
    have hreify : (t.map (Term.rename ρ)).map s'.reify = (t.map s.reify).map (Term.rename ρ) := by
      simp only [Triple.map, h.reify hρ]
    rw [Store.candidates, hreify, Store.indexed_rename, Store.candidates]

/-! ### Two counters -/

/-- The bindings `s`, with variables below `n`, and the bindings `s'`, with variables below `m`, are the same
up to the names of the variables from `n₀` on. -/
structure Aligned (n₀ : Nat) (ρ : Nat → Nat) (s : Bindings) (n : Nat) (s' : Bindings) (m : Nat) : Prop where
  injective : ρ.Injective
  fixes : ∀ v < n₀, ρ v = v
  below : ∀ v < n, ρ v < m
  acyclic : s.Acyclic
  bindings : s.Below n
  renamed : s.RenamedTo ρ s'

variable {n₀ n m m' : Nat} {s s' : Bindings}

theorem aligned_id (hs : s.Acyclic) (hbelow : s.Below n) : Aligned n id s n s n where
  injective := Function.injective_id
  fixes _ _ := rfl
  below _ hv := hv
  acyclic := hs
  bindings := hbelow
  renamed :=
    { get?_map v := by
        have term : rename id = id := funext subst_var
        rw [term, Option.map_id]
        rfl
      get?_of_ne w hw := absurd rfl (hw w) }

/-- Variables that do not occur yet may be paired anew. -/
theorem Bindings.RenamedTo.congr (h : s.RenamedTo ρ s') (hbelow : s.Below n) (hπ : π.Injective)
    (heq : ∀ v < n, π v = ρ v) : s.RenamedTo π s' where
  get?_map v := by
    cases hv : s.get? v with
    | some t =>
      obtain ⟨hvn, ht⟩ := hbelow v t hv
      rw [heq v hvn, h.get?_map, hv, Option.map_some, Option.map_some]
      exact congrArg some (Term.rename_congr fun w hw => (heq w (ht w hw)).symm)
    | none =>
      cases hv' : s'.get? (π v) with
      | none => rfl
      | some t =>
        obtain ⟨w, u, hw, hvw, -⟩ := h.get?_eq_some hv'
        rw [← heq w (hbelow w u hw).1] at hvw
        rw [hπ hvw, hw] at hv
        cases hv
  get?_of_ne w hw := by
    cases hw' : s'.get? w with
    | none => rfl
    | some t =>
      obtain ⟨v, u, hv, rfl, -⟩ := h.get?_eq_some hw'
      exact absurd (heq v (hbelow v u hv).1) (hw v)

/-- The variables from `n` on are paired with those from `m'` on. -/
theorem Aligned.extend (h : Aligned n₀ ρ s n s' m) (hn : n₀ ≤ n) (hm : m ≤ m') (count : Nat) :
    ∃ π, Aligned n₀ π s (n + count) s' (m' + count) ∧ (∀ v < n, π v = ρ v) ∧ ∀ v, π (v + n) = v + m' := by
  let π v := if v < n then ρ v else v - n + m'
  have hlow : ∀ v < n, π v = ρ v := fun v hv => if_pos hv
  have hhigh : ∀ v, n ≤ v → π v = v - n + m' := fun v hv => if_neg (by omega)
  have hπ : π.Injective := by
    intro v w hvw
    rcases Nat.lt_or_ge v n with hv | hv <;> rcases Nat.lt_or_ge w n with hw | hw
    · rw [hlow v hv, hlow w hw] at hvw
      exact h.injective hvw
    · rw [hlow v hv, hhigh w hw] at hvw
      have := h.below v hv
      omega
    · rw [hhigh v hv, hlow w hw] at hvw
      have := h.below w hw
      omega
    · rw [hhigh v hv, hhigh w hw] at hvw
      omega
  refine ⟨π, ⟨hπ, fun v hv => ?_, fun v hv => ?_, h.acyclic, h.bindings.mono (Nat.le_add_right _ _),
    h.renamed.congr h.bindings hπ hlow⟩, hlow, fun v => ?_⟩
  · rw [hlow v (by omega), h.fixes v hv]
  · rcases Nat.lt_or_ge v n with hvn | hvn
    · rw [hlow v hvn]
      have := h.below v hvn
      omega
    · rw [hhigh v hvn]
      omega
  · rw [hhigh _ (Nat.le_add_left _ _), Nat.add_sub_cancel]

/-- Unifying aligned triples leaves bindings aligned, or fails on both sides. -/
theorem Aligned.unifyTriple (h : Aligned n₀ ρ s n s' m) {a b : Triple} (ha : a.Below n) (hb : b.Below n) :
    Option.Rel (fun r r' => Aligned n₀ ρ r n r' m) (s.unifyTriple a b)
      (s'.unifyTriple (a.map (rename ρ)) (b.map (rename ρ))) :=
  Bindings.rel_imp (h.renamed.unifyTriple h.injective h.acyclic a b) fun _ _ hu hr =>
    ⟨h.injective, h.fixes, h.below, (Bindings.unified_of_unifyTriple h.acyclic hu).acyclic,
      h.bindings.unifyTriple h.acyclic ha hb hu, hr⟩

end TripleStore
