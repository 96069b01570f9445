import TripleStore.Catalog.Basic
import TripleStore.Proofs.Catalog.Goals
import TripleStore.Proofs.Search.Exhaustion

/-!
# The scope of a name

A query is read in a scope of its own, and so is each rule, its head first. In such a scope a name stands for one
variable, a mention without a name for a variable that is mentioned nowhere else, and the variables are numbered by
first mention (`GoalForm.ScopedBy`). All of them occur in the goals, so the check for variables outside the scope never
fails (`GoalForm.escape?_eq_none_of_run`). What the variables are called does not matter for anything but the names that
a query reports (`GoalForm.variables_scoped`).
-/

namespace TripleStore

/-! ### Goals -/

namespace GoalForm

variable {forms : List GoalForm} {goals : List Goal} {trail : List (Mention × Nat)} {scope : Scope} {size : Nat}

/-- The goals are those of the forms in one scope with so many variables. -/
structure ScopedBy (trail : List (Mention × Nat)) (forms : List GoalForm) (goals : List Goal) (size : Nat) : Prop where
  /-- The goals are the forms with variables in place of the mentions. -/
  reads : ReadsAll forms goals trail
  /-- Two mentions are one variable exactly when they mention one name, and variables are numbered by first mention. -/
  numbered : Mention.Numbered trail size
  /-- The variables that occur in the goals are those of the scope, in the order of their numbers. -/
  vars : (goals.flatMap Goal.vars).eraseDups = List.range size

theorem scopedBy_of_reads (h : ReadsAll forms goals trail) (hgives : Scope.GivesOut .empty trail scope) :
    ScopedBy trail forms goals scope.size :=
  have hnumbered := Scope.numbered_of_givesOut hgives
  ⟨h, hnumbered, by rw [h.vars_eq, hnumbered.inOrder]⟩

theorem ScopedBy.lt_size (h : ScopedBy trail forms goals size) : ∀ g ∈ goals, ∀ v ∈ g.vars, v < size := by
  intro g hg v hv
  rw [← List.mem_range, ← h.vars, List.mem_eraseDups]
  exact List.mem_flatMap.2 ⟨g, hg, hv⟩

/-- No goal that has been read mentions a variable outside the scope. -/
theorem escape?_eq_none_of_run (h : (GoalForm.goals forms).run .empty = .ok (goals, scope)) :
    scope.escape? goals = none := by
  obtain ⟨trail, hreads, hgives⟩ := (goals_gives forms goals .empty scope).1 h
  exact Scope.escape?_eq_none_iff.2 (scopedBy_of_reads hreads hgives).lt_size

/-- Forms with other names are read as the same goals. -/
theorem goals_run_rename {f : String → String} (h : ReadsAll forms goals trail)
    (hgives : Scope.GivesOut .empty trail scope) (hf : Mention.Renaming f trail) :
    (GoalForm.goals (forms.map (rename f))).run .empty = .ok (goals, scope.rename f) :=
  (goals_gives _ _ _ _).2 ⟨_, h.rename hf.proper, Scope.givesOut_rename hf hgives⟩

end GoalForm

/-! ### Queries and rules -/

/-- A query is accepted exactly when its forms are read. -/
theorem Query.ofForms_eq_ok_iff {forms : List GoalForm} {query : Query} :
    ofForms forms = .ok query ↔
      ∃ scope, (GoalForm.goals forms).run .empty = .ok (query.goals, scope) ∧ query.vars = scope.named ∧
        query.scope = scope.size := by
  rw [ofForms, bind_eq_ok_iff, Prod.exists]
  constructor
  · rintro ⟨goals, scope, hrun, h⟩
    obtain ⟨rfl, hvars, hscope⟩ := ofGoals?_eq_ok h
    exact ⟨scope, hrun, hvars, hscope⟩
  · rintro ⟨scope, hrun, hvars, hscope⟩
    obtain ⟨query', hquery'⟩ := exists_ofGoals? (Scope.escape?_eq_none_iff.1 (GoalForm.escape?_eq_none_of_run hrun))
    have hmade := ofGoals?_eq_ok hquery'
    refine ⟨query.goals, scope, hrun, hquery'.trans (congrArg Except.ok ?_)⟩
    cases query
    cases query'
    simp_all

/-- A query is refused for the first leaf of its forms that is not for patterns. -/
theorem Query.ofForms_eq_error_iff {forms : List GoalForm} {cause : Invalid} :
    ofForms forms = .error cause ↔
      (Json.leavesAll (forms.flatMap GoalForm.terms)).findSome? Json.patternFault? = some cause := by
  rw [← GoalForm.goals_refuses forms cause .empty, ofForms]
  cases hrun : (GoalForm.goals forms).run .empty with
  | error e =>
    change Except.error e = Except.error cause ↔ _
    rw [Except.error.injEq, Except.error.injEq]
  | ok x =>
    obtain ⟨query, hquery⟩ := exists_ofGoals? (Scope.escape?_eq_none_iff.1 (GoalForm.escape?_eq_none_of_run hrun))
    refine iff_of_false (fun h => ?_) nofun
    cases hquery.symm.trans h

/-- A query is accepted where all leaves of its forms are for patterns. -/
theorem Query.exists_ofForms_iff {forms : List GoalForm} :
    (∃ query, ofForms forms = .ok query) ↔
      ∀ leaf ∈ Json.leavesAll (forms.flatMap GoalForm.terms), leaf.patternFault? = none := by
  rw [← List.findSome?_eq_none_iff, Option.eq_none_iff_forall_ne_some]
  simp only [ne_eq, ← ofForms_eq_error_iff]
  cases ofForms forms <;> simp

/-- What the rule of some goals is made of. -/
theorem Rule.ofGoals?_eq_ok_iff {scope : Scope} {goals : List Goal} {r : Rule} :
    ofGoals? scope goals = .ok r ↔
      goals = .pattern r.head :: r.body ∧ r.name? = none ∧ r.varCount = scope.size := by
  constructor
  · intro h
    unfold ofGoals? at h
    split at h
    · cases h
    · split at h
      · cases h
      · cases h
      · cases h
        exact ⟨rfl, rfl, rfl⟩
  · rintro ⟨rfl, hname, hsize⟩
    have hnone : scope.escape? (.pattern r.head :: r.body) = none :=
      Scope.escape?_eq_none_iff.2 fun g hg v hv => hsize ▸ r.inScope g hg v hv
    cases r
    subst hname hsize
    unfold ofGoals?
    split
    · rename_i hescape
      rw [hnone] at hescape
      cases hescape
    · rfl

namespace RuleForm

/-- Gives the names that a rule mentions other ones. -/
def rename (f : String → String) (form : RuleForm) : RuleForm :=
  ⟨form.name, form.head.rename f, form.body.map (GoalForm.rename f)⟩

/-- A rule is accepted exactly when its forms are read and the first one is a pattern. -/
theorem rule_eq_ok_iff {form : RuleForm} {r : Rule} :
    form.rule = .ok r ↔
      ∃ scope, (GoalForm.goals (form.head :: form.body)).run .empty = .ok (.pattern r.head :: r.body, scope) ∧
        r.name? = some form.name ∧ r.varCount = scope.size := by
  simp only [rule, bind_eq_ok_iff, Prod.exists, Rule.ofGoals?_eq_ok_iff]
  constructor
  · rintro ⟨_, scope, hrun, r', ⟨rfl, -, hsize⟩, hr⟩
    cases hr
    exact ⟨scope, hrun, rfl, hsize⟩
  · rintro ⟨scope, hrun, hname, hsize⟩
    refine ⟨_, scope, hrun, { r with name? := none }, ⟨rfl, rfl, hsize⟩, congrArg Except.ok ?_⟩
    cases r
    subst hname
    rfl

end RuleForm

/-- A catalog has the rule of each form, read on its own. -/
theorem Catalog.ofText?_eq_ok_iff {text : String} {c : Catalog} :
    ofText? text = .ok c ↔
      ∃ forms, (Json.Written.ofText? text).bind forms? = some forms ∧
        List.Forall₂ (fun form r => form.rule = .ok r) forms c.rules := by
  rw [ofText?]
  cases (Json.Written.ofText? text).bind forms? with
  | none => simp
  | some forms =>
    simp only [bind_eq_ok_iff, mapM_eq_ok_iff, mapError_eq_ok_iff, Option.some.injEq, exists_eq_left']
    constructor
    · rintro ⟨rules, hrules, hc⟩
      cases hc
      exact hrules
    · exact fun hrules => ⟨c.rules, hrules, rfl⟩

/-! ### Names -/

/-- A query that has been accepted is read in one scope, and its goals do not depend on the names. -/
theorem Query.exists_scopedBy {forms : List GoalForm} {query : Query} (h : ofForms forms = .ok query) :
    ∃ trail, GoalForm.ScopedBy trail forms query.goals query.scope ∧
      ∀ f, Mention.Renaming f trail → ∃ query', ofForms (forms.map (GoalForm.rename f)) = .ok query' ∧
        query'.goals = query.goals ∧ query'.scope = query.scope ∧ query'.vars = query.vars.map (Prod.map f id) := by
  obtain ⟨scope, hrun, hvars, hscope⟩ := ofForms_eq_ok_iff.1 h
  obtain ⟨trail, hreads, hgives⟩ := (GoalForm.goals_gives _ _ _ _).1 hrun
  refine ⟨trail, hscope ▸ GoalForm.scopedBy_of_reads hreads hgives, fun f hf => ?_⟩
  have hsize : query.scope = (scope.rename f).size := hscope.trans (Scope.size_rename f scope).symm
  refine ⟨{ query with vars := (scope.rename f).named }, ?_, rfl, rfl, ?_⟩
  · exact ofForms_eq_ok_iff.2 ⟨_, GoalForm.goals_run_rename hreads hgives hf, rfl, hsize⟩
  · rw [hvars, ← Scope.named_rename]

/-- A rule that has been accepted is read in one scope, and does not depend on the names. -/
theorem RuleForm.exists_scopedBy {form : RuleForm} {r : Rule} (h : form.rule = .ok r) :
    ∃ trail, GoalForm.ScopedBy trail (form.head :: form.body) (.pattern r.head :: r.body) r.varCount ∧
      ∀ f, Mention.Renaming f trail → (form.rename f).rule = .ok r := by
  obtain ⟨scope, hrun, hname, hsize⟩ := rule_eq_ok_iff.1 h
  obtain ⟨trail, hreads, hgives⟩ := (GoalForm.goals_gives _ _ _ _).1 hrun
  refine ⟨trail, hsize ▸ GoalForm.scopedBy_of_reads hreads hgives, fun f hf => ?_⟩
  exact rule_eq_ok_iff.2
    ⟨_, GoalForm.goals_run_rename hreads hgives hf, hname, hsize.trans (Scope.size_rename f scope).symm⟩

/-- **What a name stands for.** A query and a rule that are accepted have been read in a scope of their own: names stand
for one variable each, and the variables are numbered by first mention. Whatever different names are given to the
variables, the query has the same goals, and the rule is the same. The check for variables outside the scope rejects
nothing. Each rule of a catalog is read as it would be on its own. -/
theorem GoalForm.variables_scoped :
    (∀ forms query, Query.ofForms forms = .ok query → ∃ trail, ScopedBy trail forms query.goals query.scope ∧
      ∀ f, Mention.Renaming f trail → ∃ query', Query.ofForms (forms.map (rename f)) = .ok query' ∧
        query'.goals = query.goals ∧ query'.scope = query.scope ∧ query'.vars = query.vars.map (Prod.map f id)) ∧
    (∀ (form : RuleForm) r, form.rule = .ok r → ∃ trail,
      ScopedBy trail (form.head :: form.body) (.pattern r.head :: r.body) r.varCount ∧
        ∀ f, Mention.Renaming f trail → (form.rename f).rule = .ok r) ∧
    (∀ forms goals scope, (GoalForm.goals forms).run .empty = .ok (goals, scope) → scope.escape? goals = none) ∧
    ∀ text c, Catalog.ofText? text = .ok c → ∃ forms, (Json.Written.ofText? text).bind Catalog.forms? = some forms ∧
      List.Forall₂ (fun form r => form.rule = .ok r) forms c.rules :=
  ⟨fun _ _ => Query.exists_scopedBy, fun _ _ => RuleForm.exists_scopedBy, fun _ _ _ => escape?_eq_none_of_run,
    fun _ _ => Catalog.ofText?_eq_ok_iff.1⟩

/-- Two coordinates, one of them in a list of its own, and something that nothing else mentions. -/
def GoalForm.positions : List GoalForm :=
  [.pattern (.string "?p") (.string "pos") (.array [.string "?x", .array [.string "?y"], .string "?_"]),
    .compare .lt (.string "?y") (.string "?x")]

/-- The points are those whose coordinates are in order. -/
def RuleForm.ordered : RuleForm :=
  ⟨"ordered", .pattern (.string "?p") (.string "is") (.string "ordered"), GoalForm.positions⟩

/-- A letter before each name makes different names of different ones. -/
theorem Mention.renaming_append (trail : List (Mention × Nat)) : Renaming ("v" ++ ·) trail := by
  refine ⟨fun a _ b _ h => by simpa using h, fun x _ => ?_⟩
  cases x.1 with
  | anonymous => trivial
  | named name =>
    have hlist : ("v" ++ name).toList = 'v' :: name.toList := String.toList_append
    refine ⟨fun h => ?_, fun h => ?_⟩ <;> cases hlist.symm.trans (congrArg String.toList h)

/-- What is the same as itself. -/
def RuleForm.same : RuleForm := ⟨"same", .pattern (.string "?x") (.string "same") (.string "?x"), []⟩

/-- There are four variables, one of which has no name; the rule has the same ones in the same order. -/
theorem GoalForm.variables_scoped_positions :
    (∃ query, Query.ofForms positions = .ok query ∧ query.scope = 4 ∧
      ∃ query', Query.ofForms (positions.map (rename ("v" ++ ·))) = .ok query' ∧ query'.goals = query.goals ∧
        query'.vars = [("vp", 0), ("vx", 1), ("vy", 2)]) ∧
    (∃ r, RuleForm.ordered.rule = .ok r ∧ r.varCount = 4 ∧ (RuleForm.ordered.rename ("v" ++ ·)).rule = .ok r) ∧
    (∃ goals scope, (GoalForm.goals positions).run .empty = .ok (goals, scope) ∧ scope.escape? goals = none) ∧
    ∃ c, Catalog.ofText? "[[\"same\",[\"?x\",\"same\",\"?x\"]]]" = .ok c ∧
      List.Forall₂ (fun form r => form.rule = .ok r) [RuleForm.same] c.rules := by
  obtain ⟨hqueries, hrules, hchecks, hcatalogs⟩ := variables_scoped
  let points : Goal := .pattern ⟨.var 0, .str "pos", .compound [.var 1, .compound [.var 2], .var 3]⟩
  let before : Goal := .check (.compare .lt (.var 2) (.var 1))
  refine ⟨⟨⟨[points, before], [("p", 0), ("x", 1), ("y", 2)], 4, by decide⟩, rfl, rfl, ?_⟩,
    ⟨⟨"ordered", ⟨.var 0, .str "is", .str "ordered"⟩, [points, before], 4, by decide⟩, rfl, rfl, ?_⟩,
    ⟨[points, before], ⟨["p", "x", "y", none]⟩, rfl, hchecks positions _ _ rfl⟩, ?_⟩
  · obtain ⟨trail, -, hrename⟩ := hqueries positions _ rfl
    obtain ⟨query', hquery', hgoals, -, hvars⟩ := hrename _ (Mention.renaming_append trail)
    exact ⟨query', hquery', hgoals, hvars⟩
  · obtain ⟨trail, -, hrename⟩ := hrules RuleForm.ordered _ rfl
    exact hrename _ (Mention.renaming_append trail)
  · have hforms : (Json.Written.ofText? "[[\"same\",[\"?x\",\"same\",\"?x\"]]]").bind Catalog.forms?
        = some [RuleForm.same] := by cbv
    have hrules : [RuleForm.same].Forall₂ (fun form r => form.rule = .ok r)
        [⟨"same", ⟨.var 0, .str "same", .var 0⟩, [], 1, by decide⟩] := .cons rfl .nil
    have hc := Catalog.ofText?_eq_ok_iff.2 ⟨_, hforms, hrules⟩
    obtain ⟨forms, hforms', hread⟩ := hcatalogs _ _ hc
    cases hforms.symm.trans hforms'
    exact ⟨_, hc, hread⟩

end TripleStore
