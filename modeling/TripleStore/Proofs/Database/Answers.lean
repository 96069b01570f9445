import TripleStore.Proofs.Database.Indexing
import TripleStore.Proofs.Search.Whether

/-!
# Asking for what has been loaded

A constant means the same in a query as in data. So a fact of a document that has no question marks in front can be
asked for by the goal that it is written as, and the database has something to answer (`Database.Answers`): it never
says that the fact does not hold, it has at least a row for each copy, and without rules just as many
(**`Database.loaded_answered`**). Whether the first row comes depends on the rules before the fact: one whose check
cannot be decided ends the search before the fact is reached (**`Database.unanswered_behind_doubt`**).
-/

namespace TripleStore

namespace Database

variable {db db' : Database} {query : Query} {t : Triple} {row : Row} {rows : List Row} {steps n : Nat}

/-! ### Rows that are found -/

/-- The first row that is brought is found. -/
theorem firstRow_of_results {rest : List (Pulled Row)}
    (h : Step.results (db.rowStep query) n (.start query) = .answer row :: rest) (hle : n ≤ steps) :
    (db.firstRow steps query).result = .ok (some row) := by
  have hpull : (Step.pull (db.rowStep query) steps (.start query)).result = .answer row :=
    Step.pullFrom_of_results h hle #[]
  simp only [firstRow, hpull]

/-- What is found first is pulled. -/
theorem pull_of_firstRow {row? : Option Row} (h : (db.firstRow steps query).result = .ok row?) :
    (Step.pull (db.rowStep query) steps (.start query)).result = (row?.elim .done .answer) := by
  simp only [firstRow] at h
  cases hpull : (Step.pull (db.rowStep query) steps (.start query)).result with
  | answer row =>
    rw [hpull] at h
    cases h
    rfl
  | done =>
    rw [hpull] at h
    cases h
    rfl
  | error e =>
    rw [hpull] at h
    cases h
  | outOfSteps =>
    rw [hpull] at h
    cases h

/-- Where there is no first row, there is none. -/
theorem exhausts_of_firstRow (h : (db.firstRow steps query).result = .ok none) :
    Step.Exhausts (db.rowStep query) (.start query) [] :=
  ⟨_, _, .of_brings (Step.brings_of_pull (pull_of_firstRow h) (by simp)) (.nil _)⟩

/-- All rows that are found are those up to the end. -/
theorem exhausts_of_allRows (h : (db.allRows steps query).result = .ok rows) :
    Step.Exhausts (db.rowStep query) (.start query) rows := by
  obtain ⟨hending, rfl⟩ := allRows_eq_ok h
  obtain ⟨n, -, as, has, hitems⟩ := Step.exists_results_of_drainFrom hending
  have hitems : (db.rows steps query none).items.toList = as := hitems
  exact hitems ▸ Step.exhausts_iff.2 ⟨n, has⟩

/-! ### Answers -/

/-- What a database answers to a query that asks whether a fact holds. -/
structure Answers (db : Database) (query : Query) (t : Triple) : Prop where
  /-- It is never said not to hold. -/
  never_none : ∀ steps, (db.firstRow steps query).result ≠ .ok none
  /-- There is a row, if the rules before some copy of the fact let it be reached. -/
  first : ∀ p ground, db.store.get? p = some (.fact t ground) →
    (∀ q < p, ∀ r, db.store.get? q = some (.rule r) → db.store.Passes db.retrieval t r) →
    ∃ bound, ∀ steps, bound ≤ steps → (db.firstRow steps query).result = .ok (some ⟨[]⟩)
  /-- All rows, if they are found, are at least as many as there are copies of the fact. -/
  copies : ∀ steps rows, (db.allRows steps query).result = .ok rows → db.store.facts.count t ≤ rows.length
  /-- Without rules all rows are found, one for each copy. -/
  exact : (∀ r, .rule r ∉ db.store.entries) → ∃ bound, ∀ steps, bound ≤ steps →
    (db.allRows steps query).result = .ok (List.replicate (db.store.facts.count t) ⟨[]⟩)

/-- **A fact that is stored is answered.** -/
theorem answers_of_mem_facts (hst : db.store.Reachable) (h : query.AsksWhether t) (hmem : t ∈ db.store.facts) :
    db.Answers query t := by
  obtain ⟨ht, -⟩ := Store.mem_facts_iff.1 hmem
  refine ⟨fun steps hnone => ?_, fun p ground hp hbefore => ?_, fun steps rows hrows => ?_, fun hfacts => ?_⟩
  · have hle : db.store.facts.count t ≤ 0 := h.count_le hst ht (exhausts_of_firstRow hnone)
    exact absurd (List.count_pos_iff.2 hmem) (Nat.not_lt.2 hle)
  · obtain ⟨n, rest, hresults⟩ := h.exists_first hst hp hbefore
    exact ⟨n, fun steps hsteps => firstRow_of_results hresults hsteps⟩
  · exact h.count_le hst ht (exhausts_of_allRows hrows)
  · exact allRows_eq (h.exhausts hst ht hfacts db.retrieval)

/-! ### What has been loaded -/

/-- What a document says is stored, whatever calls come later. -/
theorem mem_facts_of_loaded {data : Json} {count : Nat} {facts : List Triple}
    (hload : db.loadEntities data = .ok (count, db')) (hfacts : Facts.OfDocument data facts) (ht : t ∈ facts)
    (later : List Change) : t ∈ (db'.applyAll later).store.facts := by
  have hstored : t ∈ db'.store.facts := by
    have hread (facts : List Triple) : Facts.ofDocument data = .ok facts ↔ Facts.OfDocument data facts :=
      Facts.ofDocument_eq_ok_iff
    have hall := AllOrNothing.load db hread fun _ h => Facts.Read.isGround (.document h)
    rw [loadEntities_eq_ok_iff.1 hload] at hall
    rcases hall with ⟨cause, heq, -⟩ | ⟨facts', _, heq, honly, happended⟩
    · cases heq
    · cases heq
      rw [happended.facts_eq, ← (honly facts).1 hfacts]
      exact List.mem_append_right _ ht
  obtain ⟨ground, hentry⟩ := Store.mem_facts_iff.1 hstored
  have hlater := prefix_applyAll db' later
  exact Store.mem_facts_iff.2 ⟨ground, Array.mem_toList_iff.1 (hlater.subset (Array.mem_toList_iff.2 hentry))⟩

/-- **What is loaded can be asked for.** A value in which no text begins with a question mark is read in a query as it
is in data, in every scope, and gives out no variable. If an entity document has no text and no name that begins with
one, and is loaded whatever was called before and is called later, then each of its facts, written as a goal with the
same entity, attribute and value, is a query for the fact, which the database answers. -/
theorem loaded_answered :
    (∀ (v : Json) (scope : Scope), v.Constant →
      (Term.ofPattern v).run scope = (Term.ofJson v).map fun t => (t, scope)) ∧
    ∀ {db db' : Database} {data : Json} {count : Nat} {facts : List Triple} (before later : List Change),
      New db → data.Plain → (db.applyAll before).loadEntities data = .ok (count, db') → Facts.OfDocument data facts →
      ∀ t ∈ facts, t ∈ (db'.applyAll later).store.facts ∧ ∃ query, Query.ofForms [t.form] = .ok query ∧
        (∀ text, Json.ofText? text = some (.array [t.toJson]) → Query.ofText? text = .ok query) ∧
        query.goals = [.pattern t] ∧ query.vars = [] ∧ (db'.applyAll later).Answers query t := by
  refine ⟨fun v scope hv => ?_, fun {db db' data count facts} before later hnew hplain hload hfacts t ht => ?_⟩
  · rw [Term.ofPattern_eq_ofJson v hv]
    cases Term.ofJson v <;> rfl
  · have hground : t.isGround = true := Facts.Read.isGround (.document (Facts.ofDocument_eq_ok_iff.2 hfacts)) t ht
    obtain ⟨query, hquery, hasks⟩ := Query.exists_asksWhether hground (hfacts.constant hplain t ht)
    have hloaded : db' = (db.applyAll before).apply (.entities data) := by
      rw [apply, loadEntities_eq_ok_iff.1 hload]
    have hconsistent : (db'.applyAll later).Consistent := by
      rw [hloaded]
      exact ((hnew.consistent.applyAll before).apply _).applyAll later
    have hmem := mem_facts_of_loaded hload hfacts ht later
    exact ⟨hmem, query, hquery, fun _ => Query.ofText?_fact hground hquery, hasks.goals, hasks.vars,
      answers_of_mem_facts hconsistent.1 hasks hmem⟩

/-- Bob is a parent of Ann twice, and a pair of texts is one parent of hers. -/
def parentsTwice : Json := .object [("ann", .object
  [("parent", .array [.string "bob", .array [.string "x", .string "y"], .string "bob"])])]

/-- There are two rows for Bob, and one for the pair. -/
theorem loaded_answered_twice :
    (∃ query bound, Query.ofText? "[[\"ann\",\"parent\",\"bob\"]]" = .ok query ∧ ∀ steps, bound ≤ steps →
      ((load empty (Facts.ofDocument parentsTwice)).2.allRows steps query).result = .ok [⟨[]⟩, ⟨[]⟩]) ∧
    ∃ query bound, Query.ofText? "[[\"ann\",\"parent\",[\"x\",\"y\"]]]" = .ok query ∧ ∀ steps, bound ≤ steps →
      ((load empty (Facts.ofDocument parentsTwice)).2.allRows steps query).result = .ok [⟨[]⟩] := by
  let bob : Triple := ⟨.str "ann", .str "parent", .str "bob"⟩
  let pair : Triple := ⟨.str "ann", .str "parent", .compound [.str "x", .str "y"]⟩
  have hload : (empty.applyAll []).loadEntities parentsTwice
      = .ok (3, (load empty (Facts.ofDocument parentsTwice)).2) := rfl
  have hplain : parentsTwice.Plain := by
    unfold Json.Plain
    decide
  have hfacts : Facts.OfDocument parentsTwice [bob, pair, bob] := Facts.ofDocument_eq_ok_iff.1 rfl
  have hrules : ∀ r, .rule r ∉ (load empty (Facts.ofDocument parentsTwice)).2.store.entries := by
    have hall : ∀ e ∈ (load empty (Facts.ofDocument parentsTwice)).2.store.entries.toList, e.isFact = true :=
      List.all_eq_true.1 rfl
    exact fun r hr => Bool.noConfusion (hall (.rule r) (Array.mem_toList_iff.2 hr))
  have hanswered := loaded_answered.2 [] [] .empty hplain hload hfacts
  obtain ⟨-, query, -, htext, -, -, hanswers⟩ := hanswered bob (by simp)
  obtain ⟨-, query', -, htext', -, -, hanswers'⟩ := hanswered pair (by simp)
  obtain ⟨bound, hrows⟩ := hanswers.exact hrules
  obtain ⟨bound', hrows'⟩ := hanswers'.exact hrules
  exact ⟨⟨query, bound, htext _ (by cbv), hrows⟩, query', bound', htext' _ (by cbv), hrows'⟩

/-! ### Rules that cannot be decided -/

/-- Anyone is a parent of anyone, if someone who is not named is not Bob. -/
def doubt : Rule where
  name? := none
  head := ⟨.var 0, .str "parent", .var 1⟩
  body := [.check (.distinct (.var 2) (.str "bob"))]
  varCount := 3
  inScope := by decide

/-- Bob is a parent of Ann. -/
def parentOfAnn : Json := .object [("ann", .object [("parent", .string "bob")])]

/-- **A fact behind a rule may not be answered.** The rule is tried first; its check is met with a variable that has no
value, which is an error, and no row ever comes. -/
theorem unanswered_behind_doubt : ∃ db' query, parentOfAnn.Plain ∧
    (empty.applyAll [.rule doubt]).loadEntities parentOfAnn = .ok (1, db') ∧
    Facts.OfDocument parentOfAnn [⟨.str "ann", .str "parent", .str "bob"⟩] ∧
    Query.ofText? "[[\"ann\",\"parent\",\"bob\"]]" = .ok query ∧
    query.goals = [.pattern ⟨.str "ann", .str "parent", .str "bob"⟩] ∧
    ∀ steps row, (db'.firstRow steps query).result ≠ .ok (some row) := by
  let bob : Triple := ⟨.str "ann", .str "parent", .str "bob"⟩
  let db' : Database := (load (empty.addRule doubt) (Facts.ofDocument parentOfAnn)).2
  have hplain : parentOfAnn.Plain := by
    unfold Json.Plain
    decide
  have hfacts : Facts.OfDocument parentOfAnn [bob] := Facts.ofDocument_eq_ok_iff.1 rfl
  obtain ⟨query, hquery, hasks⟩ := Query.exists_asksWhether (t := bob) rfl (hfacts.constant hplain bob (by simp))
  refine ⟨db', query, hplain, rfl, hfacts, Query.ofText?_fact rfl hquery (by cbv), hasks.goals, fun steps row h => ?_⟩
  have herror : (Step.pull (db'.rowStep query) 10 (.start query)).result = .error ⟨"neq", .var 2⟩ := by
    obtain ⟨goals, vars, scope, inScope⟩ := query
    obtain ⟨rfl, rfl, rfl⟩ : goals = _ ∧ vars = _ ∧ scope = _ := ⟨hasks.goals, hasks.vars, hasks.scope⟩
    rfl
  -- what is pulled does not depend on the number of steps
  obtain ⟨heq, -⟩ := (Step.brings_of_pull (pull_of_firstRow h) (by simp)).unique (Step.brings_of_pull herror (by simp))
  cases heq

end Database

end TripleStore
