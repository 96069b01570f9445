import Mathlib.Order.Basic
import TripleStore.Proofs.Search.Exhaustion

/-!
# Rules in layers

When the attributes of rules are ranked so that the head of each rule ranks above the patterns of its body, using a rule
leads to lower ranks only, and a search comes to its end. The body of a rule lies in a lower layer of the store than its
head (`Store.Layered.bodyAt`), and there are no more layers than entries. So the resolver does not meet a bound on its
depth that is larger (`Store.Layered.stop_ne_cut`), whatever the goals, and the search, which follows the resolver,
stops for good (**`comesToEnd_of_layered`**). Nothing is asked of the goals of the query: a pattern whose attribute is
open may use any rule, but the body of that rule is in a layer.
-/

namespace TripleStore

open Term

/-! ### Streams that come to an end -/

namespace Step

variable {σ α : Type} {step : σ → Step σ α} {s : σ} {j : Nat}

/-- Any number of pulls can be made, and when they are many enough one of them has brought the end. -/
def ComesToEnd (step : σ → Step σ α) (s : σ) : Prop :=
  ∃ bound, ∀ k, ∃ rs s' es, Pulls step s rs s' es ∧ rs.length = k ∧ (bound ≤ k → .done ∈ rs)

/-- At the state the stream is done and stays there. -/
def Resting (step : σ → Step σ α) (s : σ) : Prop := (step s).progress = .done ∧ (step s).next = s

theorem Resting.results (h : Resting step s) (k : Nat) : results step k s = List.replicate k .done := by
  induction k with
  | zero => rfl
  | succ k ih =>
    rw [Step.results, h.1, h.2, ih]
    rfl

/-- A stream that is at rest after some steps comes to its end. -/
theorem comesToEnd_of_resting (h : Resting step (after step j s)) : ComesToEnd step s := by
  refine ⟨(results step j s).length + 1, fun k => ?_⟩
  have hresults : results step (j + k) s = results step j s ++ List.replicate k .done := by
    rw [results_add, h.results]
  obtain ⟨s', es, hpulls⟩ := pulls_results step (j + k) s
  obtain ⟨s', es, hpulls⟩ := hpulls.take k
  rw [hresults] at hpulls
  refine ⟨_, s', es, hpulls, by simp, fun hk => ?_⟩
  have hrest : 0 < k - (results step j s).length := by omega
  rw [List.take_append, List.mem_append, List.take_replicate, Nat.min_eq_left (Nat.sub_le _ _)]
  exact .inr (List.mem_replicate.2 ⟨hrest.ne', rfl⟩)

end Step

namespace Rows

variable {st : Store} {mode : Retrieval} {query : Query} {rows : Rows}

/-- The search of some rows goes on step by step with them. -/
theorem search_after (st : Store) (mode : Retrieval) (query : Query) (h : rows.Steady) (k : Nat) :
    (Step.after (step st mode query) k rows).search = Step.after (Search.step st mode) k rows.search := by
  induction k generalizing rows with
  | zero => rfl
  | succ k ih =>
    obtain ⟨hsearch, hsteady, -⟩ := step_follows st mode query h
    rw [Step.after, Step.after, ih hsteady, hsearch]

/-- Rows whose search has nothing left to be done are at rest. -/
theorem resting_of_search {m : Nat} (h : rows.search = ⟨m, none, []⟩) : Step.Resting (step st mode query) rows := by
  obtain ⟨search, failed⟩ := rows
  obtain rfl : search = ⟨m, none, []⟩ := h
  cases failed with
  | true => exact ⟨rfl, rfl⟩
  | false => exact ⟨rfl, rfl⟩

end Rows

/-! ### Ground attributes -/

namespace Bindings

theorem forall_eq_of_foldlM {f : Bindings → Term → Term → Option Bindings} {pairs : List (Term × Term)}
    {s s' : Bindings} (hf : ∀ p ∈ pairs, ∀ {s s'}, f s p.1 p.2 = some s' → p.1 = p.2)
    (h : pairs.foldlM (fun s p => f s p.1 p.2) s = some s') : ∀ p ∈ pairs, p.1 = p.2 := by
  induction pairs generalizing s with
  | nil => simp
  | cons p pairs ih =>
    rw [List.foldlM_cons] at h
    obtain ⟨s₁, hp, h⟩ := Option.bind_eq_some_iff.1 h
    obtain ⟨hfp, hfpairs⟩ := List.forall_mem_cons.1 hf
    exact List.forall_mem_cons.2 ⟨hfp hp, ih hfpairs h⟩

/-- Ground terms unify only when they are equal, whatever the bindings. -/
theorem eq_of_unifyWithin_of_isGround {depth : Nat} {s s' : Bindings} {a b : Term} (ha : a.isGround = true)
    (hb : b.isGround = true) (h : unifyWithin depth s a b = some s') : a = b := by
  have walk_eq {s : Bindings} {t : Term} (ht : t.isGround = true) : s.walk t = t := by
    refine walk_of_ne_var ?_
    rintro v rfl
    cases ht
  induction depth generalizing s s' a b with
  | zero => cases h
  | succ depth ih =>
    have hlevel := unifyWithin_level depth s a b
    rw [walk_eq ha, walk_eq hb, h] at hlevel
    generalize hr : some s' = r at hlevel
    cases hlevel with
    | same => rfl
    | left => cases ha
    | right => cases hb
    | @items xs ys hlen =>
      rw [isGround_compound] at ha hb
      have hitems : ∀ p ∈ xs.zip ys, p.1 = p.2 := by
        refine forall_eq_of_foldlM (fun p hp s s' hunify => ?_) hr.symm
        obtain ⟨hx, hy⟩ := List.of_mem_zip hp
        exact ih (ha _ hx) (hb _ hy) hunify
      have heq : List.Forall₂ (· = ·) xs ys := List.forall₂_iff_zip.2 ⟨hlen, fun hp => hitems _ hp⟩
      rw [List.forall₂_eq_eq_eq] at heq
      rw [heq]
    | clash => cases hr

theorem attr_eq_of_unifyTriple {s s' : Bindings} {t u : Triple} (ht : t.attr.isGround = true)
    (hu : u.attr.isGround = true) (h : s.unifyTriple t u = some s') : t.attr = u.attr := by
  obtain ⟨s₁, -, h⟩ := Option.bind_eq_some_iff.1 h
  obtain ⟨s₂, hattr, -⟩ := Option.bind_eq_some_iff.1 h
  exact eq_of_unifyWithin_of_isGround ht hu hattr

end Bindings

/-! ### Resolutions that are not cut -/

namespace Resolution

variable {α β : Type}

theorem stop_andThen_ne_cut {A B : Resolution α} (hA : A.stop ≠ .cut) (hB : B.stop ≠ .cut) :
    (A.andThen B).stop ≠ .cut := by
  cases hstop : A.stop with
  | exhausted => rwa [andThen_of_exhausted hstop]
  | error e =>
    rw [andThen, hstop]
    exact hA
  | cut => exact absurd hstop hA

theorem stop_concat_ne_cut {As : List (Resolution α)} (h : ∀ A ∈ As, A.stop ≠ .cut) : (concat As).stop ≠ .cut := by
  induction As with
  | nil => exact fun h => by cases h
  | cons A As ih =>
    obtain ⟨hA, hAs⟩ := List.forall_mem_cons.1 h
    exact stop_andThen_ne_cut hA (ih hAs)

theorem stop_bind_ne_cut {A : Resolution α} {f : α → Resolution β} (hA : A.stop ≠ .cut)
    (hf : ∀ a, (f a).stop ≠ .cut) : (A.bind f).stop ≠ .cut := by
  obtain ⟨answers, stop⟩ := A
  induction answers with
  | nil => exact hA
  | cons a answers ih => exact stop_andThen_ne_cut (hf a) (ih hA)

end Resolution

namespace Store

variable {st : Store} {mode : Retrieval}

/-- Goals are resolved without a cut if the bodies of all rules are that match one of their patterns. -/
theorem resolveGoals_stop_ne_cut {call : Bindings → Nat → List Goal → Resolution (Bindings × Nat)} {goals : List Goal}
    (hcall : ∀ t, .pattern t ∈ goals → ∀ r, .rule r ∈ st.entries → ∀ {s s' : Bindings} {n : Nat},
      s.unifyTriple t (r.headAt n) = some s' → (call s' (n + r.varCount) (r.bodyAt n)).stop ≠ .cut)
    (a : Bindings × Nat) : (st.resolveGoals mode call goals a).stop ≠ .cut := by
  induction goals generalizing a with
  | nil => exact fun h => by cases h
  | cons g rest ih =>
    have hrest := ih fun t ht => hcall t (List.mem_cons_of_mem _ ht)
    obtain ⟨s, n⟩ := a
    cases g with
    | check c =>
      rw [resolveGoals]
      split
      · exact hrest _
      · exact fun h => by cases h
      · exact fun h => by cases h
    | pattern t =>
      refine Resolution.stop_concat_ne_cut (List.forall_mem_map.2 fun p _ => ?_)
      rw [resolveAt]
      split
      · rename_i e hp
        rw [resolveEntry]
        split
        · exact fun h => by cases h
        · rename_i s' hu
          cases e with
          | fact u ground => exact hrest _
          | rule r =>
            have hr : .rule r ∈ st.entries := Array.mem_of_getElem? hp
            exact Resolution.stop_bind_ne_cut (hcall t List.mem_cons_self r hr hu) hrest
      · exact fun h => by cases h

/-! ### Layers -/

/-- Attributes are ground in the heads and in the patterns of the bodies of rules, and rank lower in the body of a rule
than in its head. -/
structure Layered {α : Type} [Preorder α] (rank : Term → α) (st : Store) : Prop where
  head : ∀ r, .rule r ∈ st.entries → r.head.attr.isGround = true
  body : ∀ r, .rule r ∈ st.entries → ∀ t, .pattern t ∈ r.body →
    t.attr.isGround = true ∧ rank t.attr < rank r.head.attr

section Layers

variable {α : Type} [Preorder α] {rank : Term → α}

open Classical in
/-- The number of rules whose head does not rank above an attribute. -/
noncomputable def height (rank : Term → α) (st : Store) (attr : Term) : Nat :=
  st.entries.toList.countP fun e => ∃ r, e = .rule r ∧ rank r.head.attr ≤ rank attr

theorem height_le_size (rank : Term → α) (st : Store) (attr : Term) : st.height rank attr ≤ st.size := by
  rw [size, ← Array.length_toList]
  exact List.countP_le_length

theorem height_pos {r : Rule} (hr : .rule r ∈ st.entries) : 0 < st.height rank r.head.attr := by
  rw [height, List.countP_pos_iff]
  exact ⟨.rule r, by simpa using hr, by simp⟩

/-- A lower rank is a lower layer, if the higher one is that of the head of a rule. -/
theorem height_lt_height {r : Rule} (hr : .rule r ∈ st.entries) {attr : Term} (h : rank attr < rank r.head.attr) :
    st.height rank attr < st.height rank r.head.attr := by
  classical
  -- the rules that do not rank above `attr` do not rank above the head, which is one more
  rw [height, height, List.countP_eq_length_filter, List.countP_eq_length_filter]
  have hsublist := List.monotone_filter_right st.entries.toList
    (p := fun e => decide (∃ r, e = .rule r ∧ rank r.head.attr ≤ rank attr))
    (q := fun e => decide (∃ r', e = .rule r' ∧ rank r'.head.attr ≤ rank r.head.attr)) (by
      intro e he
      obtain ⟨r', rfl, hle⟩ := of_decide_eq_true he
      exact decide_eq_true ⟨r', rfl, hle.trans h.le⟩)
  refine lt_of_le_of_ne hsublist.length_le fun hlen => ?_
  have hmem : .rule r ∈ st.entries.toList.filter
      fun e => decide (∃ r', e = .rule r' ∧ rank r'.head.attr ≤ rank r.head.attr) :=
    List.mem_filter.2 ⟨by simpa using hr, decide_eq_true ⟨r, rfl, le_rfl⟩⟩
  rw [← hsublist.eq_of_length hlen] at hmem
  obtain ⟨r', hr', hle⟩ := of_decide_eq_true (List.mem_filter.1 hmem).2
  cases hr'
  exact absurd h hle.not_gt

/-- The patterns of the body of a rule that is used are ground in their attributes and in lower layers. -/
theorem Layered.bodyAt (h : st.Layered rank) {r : Rule} (hr : .rule r ∈ st.entries) {n : Nat} {t : Triple}
    (ht : .pattern t ∈ r.bodyAt n) :
    t.attr.isGround = true ∧ st.height rank t.attr < st.height rank r.head.attr := by
  obtain ⟨g, hg, hshift⟩ := List.mem_map.1 ht
  cases g with
  | check c => cases hshift
  | pattern u =>
    cases hshift
    obtain ⟨hground, hlt⟩ := h.body r hr u hg
    have hattr : (u.map (shift n)).attr = u.attr := rename_of_isGround hground _
    rw [hattr]
    exact ⟨hground, height_lt_height hr hlt⟩

/-- A rule whose head unifies with a pattern of a ground attribute has that attribute. -/
theorem Layered.attr_eq (h : st.Layered rank) {r : Rule} (hr : .rule r ∈ st.entries) {s s' : Bindings} {n : Nat}
    {t : Triple} (ht : t.attr.isGround = true) (hu : s.unifyTriple t (r.headAt n) = some s') :
    t.attr = r.head.attr := by
  have hground := h.head r hr
  have hhead : (r.headAt n).attr = r.head.attr := rename_of_isGround hground _
  rw [← hhead] at hground ⊢
  exact Bindings.attr_eq_of_unifyTriple ht hground hu

/-- Goals in a layer are resolved without a cut within a depth that is larger than the layer. -/
theorem Layered.stop_ne_cut_of_height_le (h : st.Layered rank) {d : Nat} {s : Bindings} {n : Nat} {goals : List Goal}
    (hgoals : ∀ t, .pattern t ∈ goals → t.attr.isGround = true ∧ st.height rank t.attr ≤ d) :
    (st.resolve mode (d + 1) s n goals).stop ≠ .cut := by
  induction d generalizing s n goals with
  | zero =>
    -- the head of a rule is in no layer that low
    refine resolveGoals_stop_ne_cut (fun t ht r hr s s' n hu => ?_) _
    obtain ⟨hground, hheight⟩ := hgoals t ht
    rw [h.attr_eq hr hground hu] at hheight
    have hpos : 0 < st.height rank r.head.attr := height_pos hr
    omega
  | succ d ih =>
    refine resolveGoals_stop_ne_cut (fun t ht r hr s s' n hu => ih fun u hbody => ?_) _
    obtain ⟨hground, hheight⟩ := hgoals t ht
    rw [h.attr_eq hr hground hu] at hheight
    obtain ⟨hu, hlt⟩ := h.bodyAt hr hbody
    exact ⟨hu, by omega⟩

/-- **Whatever the goals, the resolver is not cut** within a depth that is larger than the number of entries. -/
theorem Layered.stop_ne_cut (h : st.Layered rank) (s : Bindings) (n : Nat) (goals : List Goal) :
    (st.resolve mode (st.size + 2) s n goals).stop ≠ .cut := by
  refine resolveGoals_stop_ne_cut (fun t _ r hr s s' n _ => h.stop_ne_cut_of_height_le fun u hbody => ?_) _
  exact ⟨(h.bodyAt hr hbody).1, height_le_size _ _ _⟩

end Layers

end Store

/-! ### Searches -/

namespace Search

variable {st : Store} {α : Type} [Preorder α] {rank : Term → α} {s : Bindings} {goals : List Goal} {n : Nat}

/-- Over rules in layers a search has nothing left to be done after some steps. -/
theorem exists_after_eq (hst : st.Layered rank) (mode : Retrieval) (hs : s.Acyclic) (hbelow : s.Below n)
    (hgoals : ∀ g ∈ goals, g.Below n) : ∃ k m, Step.after (step st mode) k (start s goals n) = ⟨m, none, []⟩ := by
  have hrealizes : Realizes st mode n (st.size + 2) _ _ [] := realizes_start hs hbelow hgoals (st.size + 2)
  obtain ⟨k, -, hstop⟩ := hrealizes
  cases hA : (st.resolve mode (st.size + 2) s n goals).stop with
  | exhausted =>
    rw [hA] at hstop
    obtain ⟨m, -, hafter⟩ := hstop
    exact ⟨k, m, hafter⟩
  | error e =>
    rw [hA] at hstop
    obtain ⟨m, hafter⟩ := hstop
    exact ⟨k, m, hafter⟩
  | cut => exact absurd hA (hst.stop_ne_cut s n goals)

end Search

/-- **Search comes to its end over rules in layers.** If the attributes of heads and of patterns in bodies are ground
and each rule leads from a higher rank to lower ones, then of the rows of any query any number can be pulled, and after
finitely many pulls the end has come; likewise for the search for any goals from any acyclic bindings. All bindings that
are met on the way are acyclic. -/
theorem comesToEnd_of_layered {α : Type} [Preorder α] {rank : Term → α} {st : Store} (hst : st.Layered rank)
    (mode : Retrieval) :
    (∀ query, Step.ComesToEnd (Rows.step st mode query) (Rows.start query)) ∧
      ∀ {s : Bindings} {goals : List Goal} {n : Nat}, s.Acyclic → s.Below n → (∀ g ∈ goals, g.Below n) →
        Step.ComesToEnd (Search.step st mode) (Search.start s goals n) ∧
          ∀ k, ∀ task ∈ (Step.after (Search.step st mode) k (Search.start s goals n)).tasks, task.1.Acyclic := by
  refine ⟨fun query => ?_, fun {s goals n} hs hbelow hgoals => ⟨?_, fun k => ?_⟩⟩
  · obtain ⟨k, m, hafter⟩ :=
      Search.exists_after_eq hst mode Bindings.acyclic_empty (Bindings.below_empty _) query.inScope
    have hsearch := (Rows.search_after st mode query (Rows.steady_start query) k).trans hafter
    exact Step.comesToEnd_of_resting (Rows.resting_of_search hsearch)
  · obtain ⟨k, m, hafter⟩ := Search.exists_after_eq hst mode hs hbelow hgoals
    refine Step.comesToEnd_of_resting (j := k) ?_
    rw [hafter]
    exact ⟨rfl, rfl⟩
  · exact Search.tasks_invariant_after (fun hl h => hl.acyclic h) k (Search.forall_mem_tasks_start.2 hs)

/-! ### An example -/

/-- Ancestors are above parents. -/
def Store.familyRank (attr : Term) : Nat := if attr = .str "ancestor" then 1 else 0

/-- In a family every question about descendants comes to its end. -/
theorem comesToEnd_family : Store.family.Layered Store.familyRank ∧
    Step.ComesToEnd (Rows.step .family .indexed .otherDescendants) (Rows.start .otherDescendants) ∧
      Step.ComesToEnd (Search.step .family .fullScan) (Search.start .empty [.descendants] 1) := by
  have hrule : ∀ r, .rule r ∈ Store.family.entries → r = .ancestor := by
    intro r hr
    simpa [Store.family, Store.push, Store.addRule, Store.withReferences] using hr
  have hlayered : Store.family.Layered Store.familyRank := by
    refine ⟨fun r hr => ?_, fun r hr t ht => ?_⟩
    · obtain rfl := hrule r hr
      rfl
    · obtain rfl := hrule r hr
      obtain rfl : t = ⟨.var 0, .str "parent", .var 1⟩ := by simpa [Rule.ancestor] using ht
      exact ⟨rfl, by decide⟩
  exact ⟨hlayered, (comesToEnd_of_layered hlayered .indexed).1 _,
    ((comesToEnd_of_layered hlayered .fullScan).2 Bindings.acyclic_empty (Bindings.below_empty 1)
      Goal.descendants_below).1⟩

end TripleStore
