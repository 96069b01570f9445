import TripleStore.Proofs.Bindings.Failure
import TripleStore.Proofs.Lists

/-!
# Computations with terms come to an end

The functions that follow bindings carry a bound on how far they go. Here is what they do without one: `WalkEnds`,
`OccursEnds`, `ReifyEnds` and `UnifyEnds` have a rule for each way in which a computation goes on or ends, and hold of
the computations that do end, with what they end with. Components are searched from left to right, up to the first one
that settles the search, and unified from left to right, each under the bindings that the earlier ones left.

On acyclic bindings all of them end, and with the results of the bounded functions: a bound is never what ends a
computation. On other bindings some do not (**`ends_iff_acyclic`**).
-/

namespace TripleStore.Bindings

open Term Relation

variable {s s' : Bindings} {x : Nat} {a b t u : Term}

/-! ### Without bounds -/

/-- Following bindings from a term ends at another. -/
inductive WalkEnds (s : Bindings) : Term → Term → Prop
  /-- A bound variable leads to its term. -/
  | bound {v : Nat} {t u : Term} : s.get? v = some t → WalkEnds s t u → WalkEnds s (.var v) u
  /-- At an unbound variable a walk ends. -/
  | unbound {v : Nat} : s.get? v = none → WalkEnds s (.var v) (.var v)
  /-- So it does at a term that is not a variable. -/
  | other {t : Term} : (∀ v, t ≠ .var v) → WalkEnds s t t

/-- Looking for a member of a list that passes a test ends with the answer; `R` says how the test of a member ends. -/
inductive AnyEnds (R : Term → Bool → Prop) : List Term → Bool → Prop
  /-- There is none in the empty list. -/
  | nil : AnyEnds R [] false
  /-- The first one passes, and the others are not tested. -/
  | found {t : Term} {ts : List Term} : R t true → AnyEnds R (t :: ts) true
  /-- The first one does not pass, and the search goes on. -/
  | next {t : Term} {ts : List Term} {b : Bool} : R t false → AnyEnds R ts b → AnyEnds R (t :: ts) b

/-- Looking for a variable in the value of a term ends with the answer. -/
inductive OccursEnds (s : Bindings) (x : Nat) : Term → Bool → Prop
  /-- A variable is compared. -/
  | var {t : Term} {v : Nat} : s.WalkEnds t (.var v) → OccursEnds s x t (v == x)
  /-- In a sequence the items are searched. -/
  | items {t : Term} {items : List Term} {b : Bool} : s.WalkEnds t (.compound items) →
      AnyEnds (OccursEnds s x) items b → OccursEnds s x t b
  /-- There is no variable in a constant. -/
  | constant {t u : Term} : s.WalkEnds t u → (∀ v, u ≠ .var v) → (∀ items, u ≠ .compound items) →
      OccursEnds s x t false

/-- Replacing all bound variables in a term ends with its value. -/
inductive ReifyEnds (s : Bindings) : Term → Term → Prop
  /-- In a sequence each item is replaced by its value. -/
  | items {t : Term} {items values : List Term} : s.WalkEnds t (.compound items) →
      List.Forall₂ (ReifyEnds s) items values → ReifyEnds s t (.compound values)
  /-- An unbound variable or a constant is the value. -/
  | other {t u : Term} : s.WalkEnds t u → (∀ items, u ≠ .compound items) → ReifyEnds s t u

/-- Binding a variable ends with the bindings, or with nothing where the variable occurs in the value of the term. -/
inductive BindEnds (s : Bindings) (x : Nat) (t : Term) : Option Bindings → Prop
  /-- The variable occurs in the value. -/
  | cyclic : s.OccursEnds x t true → BindEnds s x t none
  /-- The variable does not occur in the value. -/
  | new : s.OccursEnds x t false → BindEnds s x t (some (s.extend x t))

/-- Going through pairs of terms, each under the bindings that the earlier ones left, ends with the bindings that the
last one leaves, or with nothing at the first pair that fails; `R` says how a pair ends. -/
inductive FoldEnds (R : Bindings → Term → Term → Option Bindings → Prop) :
    Bindings → List (Term × Term) → Option Bindings → Prop
  /-- No pair is left. -/
  | nil (s : Bindings) : FoldEnds R s [] (some s)
  /-- The first pair fails, and the others are not looked at. -/
  | fail {s : Bindings} {p : Term × Term} {ps : List (Term × Term)} : R s p.1 p.2 none → FoldEnds R s (p :: ps) none
  /-- The others go on under what the first pair leaves. -/
  | next {s s' : Bindings} {p : Term × Term} {ps : List (Term × Term)} {r : Option Bindings} :
      R s p.1 p.2 (some s') → FoldEnds R s' ps r → FoldEnds R s (p :: ps) r

/-- Unifying two terms ends with bindings, or with nothing. -/
inductive UnifyEnds : Bindings → Term → Term → Option Bindings → Prop
  /-- Equal terms need no binding. -/
  | same {s : Bindings} {a b t : Term} : s.WalkEnds a t → s.WalkEnds b t → UnifyEnds s a b (some s)
  /-- A variable on the left is bound. -/
  | left {s : Bindings} {a b u : Term} {x : Nat} {r : Option Bindings} : s.WalkEnds a (.var x) → s.WalkEnds b u →
      .var x ≠ u → s.BindEnds x u r → UnifyEnds s a b r
  /-- A variable on the right is bound, if there is none on the left. -/
  | right {s : Bindings} {a b t : Term} {y : Nat} {r : Option Bindings} : s.WalkEnds a t → s.WalkEnds b (.var y) →
      (∀ x, t ≠ .var x) → s.BindEnds y t r → UnifyEnds s a b r
  /-- Sequences of one length are unified item by item. -/
  | items {s : Bindings} {a b : Term} {xs ys : List Term} {r : Option Bindings} : s.WalkEnds a (.compound xs) →
      s.WalkEnds b (.compound ys) → xs ≠ ys → xs.length = ys.length → FoldEnds UnifyEnds s (xs.zip ys) r →
        UnifyEnds s a b r
  /-- Other terms have no value in common. -/
  | clash {s : Bindings} {a b t u : Term} : s.WalkEnds a t → s.WalkEnds b u → t ≠ u → (∀ x, t ≠ .var x) →
      (∀ y, u ≠ .var y) → (∀ xs ys, t = .compound xs → u = .compound ys → xs.length ≠ ys.length) →
        UnifyEnds s a b none

/-! ### Walks -/

theorem walkEnds_walk (hs : s.Acyclic) (t : Term) : s.WalkEnds t (s.walk t) := by
  have of_var (v : Nat) : s.WalkEnds (.var v) (s.walk (.var v)) := by
    induction v using hs.induct with
    | _ v ih =>
      cases hv : s.get? v with
      | none =>
        rw [walk_var_of_none hv]
        exact .unbound hv
      | some t =>
        rw [walk_var hs hv]
        refine .bound hv ?_
        cases t with
        | var w => exact ih w ⟨_, hv, mem_vars_var.2 rfl⟩
        | _ =>
          rw [walk_of_ne_var (by simp)]
          exact .other (by simp)
  cases t with
  | var v => exact of_var v
  | _ =>
    rw [walk_of_ne_var (by simp)]
    exact .other (by simp)

theorem walkEnds_iff (hs : s.Acyclic) : s.WalkEnds t u ↔ s.walk t = u := by
  constructor
  · intro h
    induction h with
    | bound hv _ ih => rw [walk_var hs hv, ih]
    | unbound hv => exact walk_var_of_none hv
    | other ht => exact walk_of_ne_var ht
  · rintro rfl
    exact walkEnds_walk hs t

/-! ### Down into terms -/

theorem reify_of_walk_eq_compound (hs : s.Acyclic) {items : List Term} (h : s.walk t = .compound items) :
    s.reify t = .compound (items.map s.reify) := by
  rw [← reify_walk hs, h, reify_compound]

/-- Where a walk ends at an unbound variable or a constant, this is the value. -/
theorem reify_eq_walk (hs : s.Acyclic) (h : ∀ items, s.walk t ≠ .compound items) : s.reify t = s.walk t := by
  rw [← reify_walk hs]
  cases hwalk : s.walk t with
  | var v => exact reify_var_of_none (get?_of_walk_eq_var hs hwalk)
  | compound items => exact absurd hwalk (h items)
  | _ => exact reify_of_isGround rfl s

/-- Induction along the computations that go down into a term: what holds of the items of a sequence, where a walk ends
at one, holds of the term. The values of the items are smaller than that of the term. -/
theorem Acyclic.term_induct (hs : s.Acyclic) {P : Term → Prop}
    (step : ∀ t, (∀ items, s.walk t = .compound items → ∀ u ∈ items, P u) → P t) (t : Term) : P t := by
  induction hn : (s.reify t).size using Nat.strong_induction_on generalizing t with
  | _ n ih =>
    refine step t fun items hwalk u hu => ih _ ?_ u rfl
    rw [← hn, reify_of_walk_eq_compound hs hwalk]
    exact size_lt_of_mem (List.mem_map_of_mem hu)

theorem reifyEnds_iff (hs : s.Acyclic) : s.ReifyEnds t u ↔ s.reify t = u := by
  induction t using hs.term_induct generalizing u with
  | _ t ih =>
    have hitems {items values : List Term} (hwalk : s.walk t = .compound items) :
        List.Forall₂ s.ReifyEnds items values ↔ items.map s.reify = values :=
      forall₂_iff_map_eq fun u hu _ => ih items hwalk u hu
    constructor
    · intro h
      cases h with
      | items hwalk hvalues =>
        rw [walkEnds_iff hs] at hwalk
        rw [reify_of_walk_eq_compound hs hwalk, (hitems hwalk).1 hvalues]
      | other hwalk hother =>
        rw [walkEnds_iff hs] at hwalk
        subst hwalk
        exact reify_eq_walk hs hother
    · rintro rfl
      by_cases hwalk : ∃ items, s.walk t = .compound items
      · obtain ⟨items, hwalk⟩ := hwalk
        rw [reify_of_walk_eq_compound hs hwalk]
        exact .items ((walkEnds_iff hs).2 hwalk) ((hitems hwalk).2 rfl)
      · have hother (items : List Term) : s.walk t ≠ .compound items := fun h => hwalk ⟨items, h⟩
        rw [reify_eq_walk hs hother]
        exact .other (walkEnds_walk hs t) hother

theorem anyEnds_iff {R : Term → Bool → Prop} {f : Term → Bool} {ts : List Term} {b : Bool}
    (h : ∀ t ∈ ts, ∀ b, R t b ↔ f t = b) : AnyEnds R ts b ↔ ts.any f = b := by
  induction ts generalizing b with
  | nil =>
    constructor
    · rintro ⟨⟩
      rfl
    · rintro rfl
      exact .nil
  | cons t ts ih =>
    obtain ⟨ht, hts⟩ := List.forall_mem_cons.1 h
    rw [List.any_cons]
    constructor
    · intro h
      cases h with
      | found hfound => rw [(ht true).1 hfound, Bool.true_or]
      | next hnext hrest => rw [(ht false).1 hnext, Bool.false_or, (ih hts).1 hrest]
    · rintro rfl
      cases hf : f t with
      | true => exact .found ((ht true).2 hf)
      | false =>
        rw [Bool.false_or]
        exact .next ((ht false).2 hf) ((ih hts).2 rfl)

theorem occurs_of_walk_eq_compound (hs : s.Acyclic) {items : List Term} (h : s.walk t = .compound items) (x : Nat) :
    s.occurs x t = items.any (s.occurs x) := by
  rw [Bool.eq_iff_iff, occurs_iff, reify_of_walk_eq_compound hs h, mem_vars_compound, List.any_eq_true]
  simp [occurs_iff]

theorem occurs_of_walk_eq_var (hs : s.Acyclic) {v : Nat} (h : s.walk t = .var v) (x : Nat) :
    s.occurs x t = (v == x) := by
  rw [Bool.eq_iff_iff, occurs_iff, reify_eq_walk hs (by simp [h]), h, mem_vars_var, beq_iff_eq, eq_comm]

theorem occurs_of_constant (hs : s.Acyclic) (hvar : ∀ v, s.walk t ≠ .var v) (hitems : ∀ items, s.walk t ≠ .compound items)
    (x : Nat) : s.occurs x t = false := by
  rw [Bool.eq_false_iff, ne_eq, occurs_iff, reify_eq_walk hs hitems]
  cases hwalk : s.walk t with
  | var v => exact absurd hwalk (hvar v)
  | compound items => exact absurd hwalk (hitems items)
  | _ => exact List.not_mem_nil

theorem occursEnds_iff (hs : s.Acyclic) {b : Bool} : s.OccursEnds x t b ↔ s.occurs x t = b := by
  induction t using hs.term_induct generalizing b with
  | _ t ih =>
    have hany {items : List Term} {b : Bool} (hwalk : s.walk t = .compound items) :
        AnyEnds (s.OccursEnds x) items b ↔ items.any (s.occurs x) = b :=
      anyEnds_iff fun u hu _ => ih items hwalk u hu
    constructor
    · intro h
      cases h with
      | var hwalk => exact occurs_of_walk_eq_var hs ((walkEnds_iff hs).1 hwalk) x
      | items hwalk hb =>
        rw [walkEnds_iff hs] at hwalk
        rw [occurs_of_walk_eq_compound hs hwalk, (hany hwalk).1 hb]
      | constant hwalk hvar hitems =>
        rw [walkEnds_iff hs] at hwalk
        subst hwalk
        exact occurs_of_constant hs hvar hitems x
    · rintro rfl
      have hends := walkEnds_walk hs t
      cases hwalk : s.walk t with
      | var v =>
        rw [occurs_of_walk_eq_var hs hwalk]
        exact .var (hwalk ▸ hends)
      | compound items =>
        rw [occurs_of_walk_eq_compound hs hwalk]
        exact .items (hwalk ▸ hends) ((hany hwalk).2 rfl)
      | _ =>
        rw [occurs_of_constant hs (by simp [hwalk]) (by simp [hwalk])]
        exact .constant hends (by simp [hwalk]) (by simp [hwalk])

theorem bindEnds_iff (hs : s.Acyclic) {r : Option Bindings} : s.BindEnds x t r ↔ s.bind? x t = r := by
  unfold bind?
  constructor
  · intro h
    cases h with
    | cyclic h => rw [if_pos ((occursEnds_iff hs).1 h)]
    | new h => rw [if_neg (by simp [(occursEnds_iff hs).1 h])]
  · rintro rfl
    split
    · exact .cyclic ((occursEnds_iff hs).2 ‹_›)
    · exact .new ((occursEnds_iff hs).2 (Bool.eq_false_iff.2 ‹_›))

/-! ### Unification -/

/-- Going through pairs ends as the fold does, if each pair ends as it does there under the bindings that are reached. -/
theorem foldEnds_iff {R : Bindings → Term → Term → Option Bindings → Prop}
    {f : Bindings → Term × Term → Option Bindings} : ∀ {pairs : List (Term × Term)} {s : Bindings},
      (∀ ps p qs s', pairs = ps ++ p :: qs → ps.foldlM f s = some s' → ∀ r, R s' p.1 p.2 r ↔ f s' p = r) →
        ∀ r, FoldEnds R s pairs r ↔ pairs.foldlM f s = r := by
  intro pairs
  induction pairs with
  | nil =>
    intro s _ r
    constructor
    · rintro ⟨⟩
      rfl
    · rintro rfl
      exact .nil s
  | cons p pairs ih =>
    intro s h r
    have hp := h [] p pairs s rfl rfl
    rw [List.foldlM_cons]
    have hrest {s₁ : Bindings} (hs₁ : f s p = some s₁) := ih (s := s₁) fun ps q qs s' hsplit hps =>
      h (p :: ps) q qs s' (congrArg (p :: ·) hsplit) (by rw [List.foldlM_cons, hs₁]; exact hps)
    constructor
    · intro hends
      cases hends with
      | fail hnone => rw [(hp none).1 hnone]; rfl
      | next hsome hnext =>
        have hs₁ := (hp _).1 hsome
        rw [hs₁]
        exact (hrest hs₁ r).1 hnext
    · rintro rfl
      cases hf : f s p with
      | none => exact .fail ((hp none).2 hf)
      | some s₁ => exact .next ((hp _).2 hf) ((hrest hf _).2 rfl)

section

variable {depth : Nat} {r : Option Bindings}
  (hitems : ∀ {xs ys}, s.walk a = .compound xs → s.walk b = .compound ys → ∀ r,
    FoldEnds UnifyEnds s (xs.zip ys) r ↔ (xs.zip ys).foldlM (fun s p => unifyWithin depth s p.1 p.2) s = r)

include hitems

/-- What unification ends with is what one level returns, if this is so for the items of sequences. -/
theorem UnifyEnds.unifyWithin_eq (hs : s.Acyclic) (h : s.UnifyEnds a b r) : unifyWithin (depth + 1) s a b = r := by
  rw [unifyWithin]
  cases h with
  | same ha hb => rw [(walkEnds_iff hs).1 ha, (walkEnds_iff hs).1 hb, if_pos rfl]
  | left ha hb hne hbind =>
    rw [(walkEnds_iff hs).1 ha, (walkEnds_iff hs).1 hb, if_neg hne]
    exact (bindEnds_iff hs).1 hbind
  | @right _ _ _ t y _ ha hb hvar hbind =>
    rw [(walkEnds_iff hs).1 ha, (walkEnds_iff hs).1 hb, if_neg (hvar y)]
    cases t with
    | var x => exact absurd rfl (hvar x)
    | _ => exact (bindEnds_iff hs).1 hbind
  | items ha hb hne hlen hfold =>
    rw [walkEnds_iff hs] at ha hb
    rw [ha, hb, if_neg fun h => hne (compound.inj h)]
    exact (if_pos hlen).trans ((hitems ha hb r).1 hfold)
  | @clash _ _ _ t u ha hb hne hvar hvar' hlen =>
    rw [(walkEnds_iff hs).1 ha, (walkEnds_iff hs).1 hb, if_neg hne]
    cases t with
    | var x => exact absurd rfl (hvar x)
    | compound xs =>
      cases u with
      | var y => exact absurd rfl (hvar' y)
      | compound ys => exact if_neg (hlen xs ys rfl rfl)
      | _ => rfl
    | _ =>
      cases u with
      | var y => exact absurd rfl (hvar' y)
      | _ => rfl

/-- Unification ends with what one level returns, if this is so for the items of sequences. -/
theorem unifyEnds_unifyWithin (hs : s.Acyclic) : s.UnifyEnds a b (unifyWithin (depth + 1) s a b) := by
  have ha := walkEnds_walk hs a
  have hb := walkEnds_walk hs b
  rw [unifyWithin]
  generalize hwa : s.walk a = t at ha
  generalize hwb : s.walk b = u at hb
  by_cases htu : t = u
  · subst htu
    rw [if_pos rfl]
    exact .same ha hb
  · rw [if_neg htu]
    cases t with
    | var x => exact .left ha hb htu ((bindEnds_iff hs).2 rfl)
    | compound xs =>
      cases u with
      | var y => exact .right ha hb (by simp) ((bindEnds_iff hs).2 rfl)
      | compound ys =>
        dsimp only
        split
        · exact .items ha hb (fun h => htu (congrArg compound h)) ‹_› ((hitems hwa hwb _).2 rfl)
        · refine .clash ha hb htu (by simp) (by simp) ?_
          rintro _ _ ⟨⟩ ⟨⟩
          assumption
      | _ => exact .clash ha hb htu (by simp) (by simp) (by simp)
    | _ =>
      cases u with
      | var y => exact .right ha hb (by simp) ((bindEnds_iff hs).2 rfl)
      | _ => exact .clash ha hb htu (by simp) (by simp) (by simp)

end

/-- Within a depth that is enough, unification ends as it does without a bound. -/
theorem unifyEnds_iff_of_suffices {U : Finset Term} : ∀ {depth : Nat} {s : Bindings} {a b : Term} {V : Finset Term},
    Suffices U V depth s a b → ∀ r, s.UnifyEnds a b r ↔ unifyWithin depth s a b = r := by
  intro depth
  induction depth with
  | zero => exact fun h => absurd rfl h.depth_ne_zero
  | succ depth ih =>
    intro s a b V h r
    have hitems {xs ys : List Term} (ha : s.walk a = .compound xs) (hb : s.walk b = .compound ys) :
        ∀ r, FoldEnds UnifyEnds s (xs.zip ys) r ↔
          (xs.zip ys).foldlM (fun s p => unifyWithin depth s p.1 p.2) s = r :=
      foldEnds_iff fun ps p qs s' hsplit hps => ih (h.item ha hb hsplit hps)
    constructor
    · exact fun hends => hends.unifyWithin_eq hitems h.acyclic
    · rintro rfl
      exact unifyEnds_unifyWithin hitems h.acyclic

/-- Unification ends, with what the function with a bound on the depth returns. -/
theorem unifyEnds_iff (hs : s.Acyclic) {r : Option Bindings} : s.UnifyEnds a b r ↔ s.unify a b = r := by
  obtain ⟨U, hU⟩ := exists_suffices hs a b
  rw [unifyEnds_iff_of_suffices hU, unify_eq_unifyWithin]

/-! ### Where everything ends -/

/-- All computations with terms under the bindings end, each with one result, which is what the bounded function gives. -/
structure Ends (s : Bindings) : Prop where
  walk : ∀ t u, s.WalkEnds t u ↔ s.walk t = u
  occurs : ∀ x t b, s.OccursEnds x t b ↔ s.occurs x t = b
  reify : ∀ t u, s.ReifyEnds t u ↔ s.reify t = u
  unify : ∀ a b r, s.UnifyEnds a b r ↔ s.unify a b = r

theorem Acyclic.ends (hs : s.Acyclic) : s.Ends where
  walk _ _ := walkEnds_iff hs
  occurs _ _ _ := occursEnds_iff hs
  reify _ _ := reifyEnds_iff hs
  unify _ _ _ := unifyEnds_iff hs

/-- No path of bindings that begins at the variable goes on for ever. -/
abbrev Founded (s : Bindings) (v : Nat) : Prop := Acc (fun w v => s.Mentions v w) v

theorem WalkEnds.founded (h : s.WalkEnds t u) (hu : ∀ v ∈ u.vars, s.Founded v) : ∀ v ∈ t.vars, s.Founded v := by
  induction h with
  | @bound v t _ hv _ ih =>
    intro w hw
    rw [mem_vars_var.1 hw]
    refine .intro v ?_
    rintro w ⟨t', ht', hw⟩
    rw [hv] at ht'
    cases ht'
    exact ih hu w hw
  | unbound _ => exact hu
  | other _ => exact hu

theorem WalkEnds.get?_eq_none {v : Nat} (h : s.WalkEnds t u) (hu : u = .var v) : s.get? v = none := by
  induction h with
  | bound _ _ ih => exact ih hu
  | unbound hv =>
    cases hu
    exact hv
  | other ht => exact absurd hu (ht v)

/-- Where the replacement of all bound variables ends, no path of bindings goes on for ever. -/
theorem ReifyEnds.founded (h : s.ReifyEnds t u) : ∀ v ∈ t.vars, s.Founded v := by
  refine ReifyEnds.rec (motive_1 := fun t _ _ => ∀ v ∈ t.vars, s.Founded v)
    (motive_2 := fun ts _ _ => ∀ t ∈ ts, ∀ v ∈ t.vars, s.Founded v) ?_ ?_ ?_ ?_ h
  · intro t items values hwalk _ ih
    refine hwalk.founded fun v hv => ?_
    obtain ⟨u, hu, hv⟩ := mem_vars_compound.1 hv
    exact ih u hu v hv
  · intro t u hwalk hother
    refine hwalk.founded fun v hv => ?_
    cases u with
    | var w =>
      rw [mem_vars_var.1 hv]
      refine .intro w ?_
      rintro v ⟨t', ht', -⟩
      rw [hwalk.get?_eq_none rfl] at ht'
      cases ht'
    | compound items => exact absurd rfl (hother items)
    | _ => cases hv
  · intro t ht
    cases ht
  · intro t u ts us _ _ ht hts
    exact List.forall_mem_cons.2 ⟨ht, hts⟩

/-- **Computations with terms come to an end exactly on acyclic bindings**: following bindings from a term, looking for a
variable in a value, replacing all bound variables, and unifying, with the later components under bindings that the
earlier ones extended. What they end with is what the functions with bounds return. -/
theorem ends_iff_acyclic : s.Ends ↔ s.Acyclic := by
  refine ⟨fun h => ?_, Acyclic.ends⟩
  have hfounded (v : Nat) : s.Founded v := ((h.reify (.var v) _).2 rfl).founded v (mem_vars_var.2 rfl)
  have hwf : WellFounded (TransGen fun w v => s.Mentions v w) := WellFounded.transGen ⟨hfounded⟩
  intro v hv
  have hback : TransGen (fun w v => s.Mentions v w) v v := transGen_swap.2 hv
  exact hwf.asymmetric v v hback hback

end TripleStore.Bindings
