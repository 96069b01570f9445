import TripleStore.Catalog.GoalForm
import TripleStore.Proofs.Json.Patterns

/-!
# Reading goals

The goal of a form is of the kind that the form says, and its terms are those of the form, read from left to right
(`GoalForm.Reads`). A list of forms is read in one scope (`GoalForm.ReadsAll`). The reader gives just such goals
(`GoalForm.goals_gives`), and refuses a list of forms for the first of its leaves that is not for patterns
(`GoalForm.goals_refuses`).
-/

namespace TripleStore.GoalForm

open Scoping Json

/-- The values of a form, in the order of reading. -/
def terms : GoalForm → List Json
  | pattern entity attr value => [entity, attr, value]
  | distinct left right => [left, right]
  | compare _ left right => [left, right]

/-- The goal is that of the form; the trail lists its mentions and their variables. -/
inductive Reads : GoalForm → Goal → List (Mention × Nat) → Prop
  /-- A pattern of three terms. -/
  | pattern {entity attr value : Json} {e a v : Term} {trail : List (Mention × Nat)} :
      Term.ReadsAll [entity, attr, value] [e, a, v] trail → Reads (pattern entity attr value) (.pattern ⟨e, a, v⟩) trail
  /-- Two terms that have to be different. -/
  | distinct {left right : Json} {l r : Term} {trail : List (Mention × Nat)} :
      Term.ReadsAll [left, right] [l, r] trail → Reads (distinct left right) (.check (.distinct l r)) trail
  /-- Two terms that have to compare. -/
  | compare (op : Comparison) {left right : Json} {l r : Term} {trail : List (Mention × Nat)} :
      Term.ReadsAll [left, right] [l, r] trail → Reads (compare op left right) (.check (.compare op l r)) trail

/-- The goals are those of the forms, in their order. -/
inductive ReadsAll : List GoalForm → List Goal → List (Mention × Nat) → Prop
  | nil : ReadsAll [] [] []
  | cons {form : GoalForm} {forms : List GoalForm} {g : Goal} {goals : List Goal}
      {trail trail' : List (Mention × Nat)} : Reads form g trail → ReadsAll forms goals trail' →
      ReadsAll (form :: forms) (g :: goals) (trail ++ trail')

variable {form : GoalForm} {forms : List GoalForm} {g : Goal} {goals : List Goal} {trail : List (Mention × Nat)}

/-! ### Variables and names -/

/-- The variables of a goal that has been read are those of the mentions. -/
theorem Reads.vars_eq (h : form.Reads g trail) : g.vars = trail.map Prod.snd := by
  cases h with
  | pattern h => exact h.vars_eq
  | distinct h => exact h.vars_eq
  | compare op h => exact h.vars_eq

theorem ReadsAll.vars_eq (h : ReadsAll forms goals trail) : goals.flatMap Goal.vars = trail.map Prod.snd := by
  induction h with
  | nil => rfl
  | cons h _ ih => rw [List.flatMap_cons, h.vars_eq, ih, List.map_append]

/-- Gives the names that a form mentions other ones. -/
def rename (f : String → String) : GoalForm → GoalForm
  | pattern entity attr value => pattern (entity.rename f) (attr.rename f) (value.rename f)
  | distinct left right => distinct (left.rename f) (right.rename f)
  | compare op left right => compare op (left.rename f) (right.rename f)

/-- What a form is read as does not depend on the names that it mentions. -/
theorem Reads.rename {f : String → String} (h : form.Reads g trail) (hf : ∀ x ∈ trail, (x.1.rename f).Proper) :
    (form.rename f).Reads g (trail.map (Prod.map (Mention.rename f) id)) := by
  cases h with
  | pattern h => exact .pattern (h.rename f hf)
  | distinct h => exact .distinct (h.rename f hf)
  | compare op h => exact .compare op (h.rename f hf)

theorem ReadsAll.rename {f : String → String} (h : ReadsAll forms goals trail)
    (hf : ∀ x ∈ trail, (x.1.rename f).Proper) :
    ReadsAll (forms.map (GoalForm.rename f)) goals (trail.map (Prod.map (Mention.rename f) id)) := by
  induction h with
  | nil => exact .nil
  | cons h _ ih =>
    rw [List.map_append]
    exact .cons (h.rename fun x hx => hf x (List.mem_append_left _ hx))
      (ih fun x hx => hf x (List.mem_append_right _ hx))

/-! ### Running the reader -/

/-- Two values that are read one after the other are read as a list of two. -/
theorem pair_gives (left right : Json) (f : Term → Term → Goal) :
    Gives (do
      let l ← Term.ofPattern left
      let r ← Term.ofPattern right
      return f l r) fun g trail => ∃ l r, Term.ReadsAll [left, right] [l, r] trail ∧ f l r = g := by
  refine ((Term.ofPattern_gives left).bind fun l => (Term.ofPattern_gives right).map (f l)).congr fun g trail => ?_
  constructor
  · rintro ⟨l, first, second, hl, ⟨r, hr, rfl⟩, rfl⟩
    have hread : Term.ReadsAll [left, right] [l, r] (first ++ (second ++ [])) := .cons hl (.cons hr .nil)
    exact ⟨l, r, by rwa [List.append_nil] at hread, rfl⟩
  · rintro ⟨l, r, _ | ⟨hl, _ | ⟨hr, _ | _⟩⟩, rfl⟩
    exact ⟨l, _, _, hl, ⟨r, hr, rfl⟩, by rw [List.append_nil]⟩

/-- **A form is read as just the goals that it has**, with the variables that the scope gives out for its mentions. -/
theorem goal_gives (form : GoalForm) : Gives form.goal form.Reads := by
  cases form with
  | pattern entity attr value =>
    refine ((Term.ofPattern_gives entity).bind fun e => (Term.ofPattern_gives attr).bind fun a =>
      (Term.ofPattern_gives value).map fun v => Goal.pattern ⟨e, a, v⟩).congr fun g trail => ?_
    constructor
    · rintro ⟨e, first, _, he, ⟨a, second, third, ha, ⟨v, hv, rfl⟩, rfl⟩, rfl⟩
      have hread : Term.ReadsAll [entity, attr, value] [e, a, v] (first ++ (second ++ (third ++ []))) :=
        .cons he (.cons ha (.cons hv .nil))
      exact .pattern (by rwa [List.append_nil] at hread)
    · intro h
      cases h with | pattern h =>
      obtain _ | ⟨he, _ | ⟨ha, _ | ⟨hv, _ | _⟩⟩⟩ := h
      exact ⟨_, _, _, he, ⟨_, _, _, ha, ⟨_, hv, rfl⟩, rfl⟩, by rw [List.append_nil]⟩
  | distinct left right =>
    refine (pair_gives left right fun l r => .check (.distinct l r)).congr fun g trail => ?_
    constructor
    · rintro ⟨l, r, h, rfl⟩
      exact .distinct h
    · intro h
      cases h with | distinct h =>
      exact ⟨_, _, h, rfl⟩
  | compare op left right =>
    refine (pair_gives left right fun l r => .check (.compare op l r)).congr fun g trail => ?_
    constructor
    · rintro ⟨l, r, h, rfl⟩
      exact .compare op h
    · intro h
      cases h with | compare _ h =>
      exact ⟨_, _, h, rfl⟩

/-- **Goals are read as those of the forms**, with the variables that the scope gives out for their mentions. -/
theorem goals_gives (forms : List GoalForm) : Gives (GoalForm.goals forms) (ReadsAll forms) := by
  induction forms with
  | nil =>
    refine (gives_pure []).congr fun goals trail => ?_
    constructor
    · rintro ⟨rfl, rfl⟩
      exact .nil
    · rintro ⟨⟩
      exact ⟨rfl, rfl⟩
  | cons form forms ih =>
    refine ((goal_gives form).bind fun g => ih.map (g :: ·)).congr fun goals trail => ?_
    constructor
    · rintro ⟨g, first, rest, hfirst, ⟨gs, hrest, rfl⟩, rfl⟩
      exact .cons hfirst hrest
    · rintro (_ | ⟨hfirst, hrest⟩)
      exact ⟨_, _, _, hfirst, ⟨_, hrest, rfl⟩, rfl⟩

theorem pair_refuses (left right : Json) (f : Term → Term → Goal) :
    Refuses (do
      let l ← Term.ofPattern left
      let r ← Term.ofPattern right
      return f l r) (leavesAll [left, right]) := by
  have hread := (Term.ofPattern_refuses left).bind fun l => (Term.ofPattern_refuses right).map (f l)
  rwa [leavesAll, leavesAll, leavesAll, List.append_nil]

/-- A goal is refused as its terms are. -/
theorem goal_refuses (form : GoalForm) : Refuses form.goal (leavesAll form.terms) := by
  cases form with
  | pattern entity attr value =>
    have hread := (Term.ofPattern_refuses entity).bind fun e => (Term.ofPattern_refuses attr).bind fun a =>
      (Term.ofPattern_refuses value).map fun v => Goal.pattern ⟨e, a, v⟩
    rwa [terms, leavesAll, leavesAll, leavesAll, leavesAll, List.append_nil]
  | distinct left right => exact pair_refuses left right fun l r => .check (.distinct l r)
  | compare op left right => exact pair_refuses left right fun l r => .check (.compare op l r)

/-- **Goals are refused for the first leaf** that is not for patterns. -/
theorem goals_refuses (forms : List GoalForm) : Refuses (GoalForm.goals forms) (leavesAll (forms.flatMap terms)) := by
  induction forms with
  | nil => exact refuses_pure []
  | cons form forms ih =>
    rw [List.flatMap_cons, leavesAll_append]
    exact (goal_refuses form).bind fun g => ih.map (g :: ·)

end TripleStore.GoalForm
