import TripleStore.Proofs.Search.RangeRestriction

/-!
# Queries over facts

In a store without rules a search is an ordered join. It goes through nested loops, one for each pattern, over the
candidates of the pattern (`Store.join`, `Search.finds_join`). What the loops find, and in which order, is said without
them: the tuples of positions, one for each pattern, at which the store has the values of the patterns under some
assignment that meets the checks as well (`Store.Joins`). Each tuple is found once, in the lexicographic order of
tuples, with bindings that allow exactly the assignments that join it (`Store.mem_join`, `Store.exists_mem_join`,
`Store.pairwise_join`). Put together, this says what is pulled from the search (**`Search.exhausts_join`**); a fact that
is stored twice has two positions and counts twice.
-/

namespace TripleStore

open Term

/-- The patterns among the goals, in their order. -/
def Goal.patterns (goals : List Goal) : List Triple :=
  goals.filterMap fun
    | .pattern t => some t
    | .check _ => none

/-- Acyclic bindings are respected by some assignment of ground terms. -/
theorem Bindings.Acyclic.exists_grounding {s : Bindings} (hs : s.Acyclic) : ∃ τ, Grounding τ ∧ s.RespectedBy τ := by
  -- variables without a binding may have any value
  refine ⟨fun v => (s.value v).subst fun _ => .bool true, fun v => isGround_subst fun _ _ => rfl, fun v t hv => ?_⟩
  show (s.value v).subst _ = _
  rw [hs.respectedBy_value v t hv, subst_subst]

namespace Store

variable {st : Store} {mode : Retrieval} {s s' : Bindings} {t : Triple} {goals rest : List Goal} {τ : Nat → Term}
  {tuple : List Nat}

/-! ### Tuples of positions -/

/-- Under the assignment, which respects the bindings, the patterns have the facts at the positions of the tuple as
their values, and the checks hold. -/
structure Joins (st : Store) (s : Bindings) (goals : List Goal) (τ : Nat → Term) (tuple : List Nat) : Prop where
  respects : s.RespectedBy τ
  facts : List.Forall₂ (fun t p => ∃ ground, st.get? p = some (.fact (t.map (subst τ)) ground)) (Goal.patterns goals)
    tuple
  checks : ∀ c, .check c ∈ goals → c.Holds τ

theorem joins_nil_iff : st.Joins s [] τ tuple ↔ s.RespectedBy τ ∧ tuple = [] := by
  constructor
  · intro h
    exact ⟨h.respects, List.forall₂_nil_left_iff.1 h.facts⟩
  · rintro ⟨hτ, rfl⟩
    exact ⟨hτ, .nil, by simp⟩

theorem joins_check_iff {c : Check} :
    st.Joins s (.check c :: rest) τ tuple ↔ c.Holds τ ∧ st.Joins s rest τ tuple := by
  constructor
  · intro h
    exact ⟨h.checks c List.mem_cons_self, h.respects, h.facts, fun c' hc' => h.checks c' (List.mem_cons_of_mem _ hc')⟩
  · rintro ⟨hc, h⟩
    refine ⟨h.respects, h.facts, fun c' hc' => ?_⟩
    rcases List.mem_cons.1 hc' with heq | hc'
    · cases heq
      exact hc
    · exact h.checks c' hc'

theorem joins_pattern_iff : st.Joins s (.pattern t :: rest) τ tuple ↔ ∃ p ps, tuple = p :: ps ∧
    (∃ ground, st.get? p = some (.fact (t.map (subst τ)) ground)) ∧ st.Joins s rest τ ps := by
  have hpatterns : Goal.patterns (.pattern t :: rest) = t :: Goal.patterns rest := rfl
  constructor
  · intro h
    have hfacts := h.facts
    rw [hpatterns, List.forall₂_cons_left_iff] at hfacts
    obtain ⟨p, ps, hp, hps, rfl⟩ := hfacts
    exact ⟨p, ps, rfl, hp, h.respects, hps, fun c hc => h.checks c (List.mem_cons_of_mem _ hc)⟩
  · rintro ⟨p, ps, rfl, hp, h⟩
    refine ⟨h.respects, hpatterns ▸ .cons hp h.facts, fun c hc => ?_⟩
    exact h.checks c ((List.mem_cons.1 hc).resolve_left fun heq => by cases heq)

/-- Under bindings that make a pattern and a fact equal, goals are joined by the assignments that do so. -/
theorem joins_iff_of_unifyTriple (hs : s.Acyclic) {u : Triple} (hu : s.unifyTriple t u = some s') :
    st.Joins s' rest τ tuple ↔ t.map (subst τ) = u.map (subst τ) ∧ st.Joins s rest τ tuple := by
  have hrespects := Bindings.respectedBy_iff_of_unifyTriple hs hu τ
  constructor
  · intro hjoins
    obtain ⟨hs, heq⟩ := hrespects.1 hjoins.respects
    exact ⟨heq, hs, hjoins.facts, hjoins.checks⟩
  · rintro ⟨heq, hjoins⟩
    exact ⟨hrespects.2 ⟨hjoins.respects, heq⟩, hjoins.facts, hjoins.checks⟩

/-! ### Nested loops -/

/-- One round of the loop of a pattern: the entry at the position is matched, and `rest` goes on from there. -/
def joinAt (st : Store) (s : Bindings) (t : Triple) (rest : Bindings → List (List Nat × Bindings)) (p : Nat) :
    List (List Nat × Bindings) :=
  match st.get? p with
  | some e =>
    match s.unifyTriple t e.head with
    | some s' => (rest s').map fun j => (p :: j.1, j.2)
    | none => []
  | none => []

/-- Meets goals by facts, in nested loops. What is found comes with the positions of the facts that were used. -/
def join (st : Store) (mode : Retrieval) : List Goal → Bindings → List (List Nat × Bindings)
  | [], s => [([], s)]
  | .check c :: rest, s =>
    match c.run s with
    | .ok true => join st mode rest s
    | _ => []
  | .pattern t :: rest, s => (st.candidates mode s t).flatMap (st.joinAt s t (join st mode rest))

theorem mem_joinAt_iff {f : Bindings → List (List Nat × Bindings)} {p : Nat} {j : List Nat × Bindings} :
    j ∈ st.joinAt s t f p ↔ ∃ e s' j', st.get? p = some e ∧ s.unifyTriple t e.head = some s' ∧ j' ∈ f s' ∧
      j = (p :: j'.1, j'.2) := by
  rw [joinAt]
  cases hp : st.get? p with
  | none => simp
  | some e =>
    cases hu : s.unifyTriple t e.head with
    | none => simp [hu]
    | some s' =>
      simp only [hu, List.mem_map, Option.some.injEq, exists_and_left, exists_eq_left', eq_comm]

/-- In a store without rules the entry at a position is a fact. -/
theorem exists_fact (hfacts : ∀ r, .rule r ∉ st.entries) {p : Nat} {e : Entry} (hp : st.get? p = some e) :
    ∃ u ground, e = .fact u ground := by
  cases e with
  | fact u ground => exact ⟨u, ground, rfl⟩
  | rule r => exact absurd (Array.mem_of_getElem? hp) (hfacts r)

/-- The fact at a position is the value of a pattern when the two have the same value. -/
theorem fact_at_iff {p : Nat} {u : Triple} {ground : u.isGround = true} (hp : st.get? p = some (.fact u ground)) :
    (∃ ground', st.get? p = some (.fact (t.map (subst τ)) ground')) ↔ t.map (subst τ) = u.map (subst τ) := by
  have hvalue : u.map (subst τ) = u := Triple.map_of_isGround ground fun w hw => subst_of_isGround hw τ
  rw [hvalue]
  constructor
  · rintro ⟨_, hp'⟩
    rw [hp] at hp'
    cases hp'
    rfl
  · rintro rfl
    exact ⟨ground, hp⟩

/-- **What the loops find** are bindings that extend those at the start and allow exactly the assignments that join the
tuple. -/
theorem mem_join (hfacts : ∀ r, .rule r ∉ st.entries) (hs : s.Acyclic) {j : List Nat × Bindings}
    (hj : j ∈ st.join mode goals s) :
    s.ExtendedBy j.2 ∧ j.2.Acyclic ∧ ∀ τ, j.2.RespectedBy τ ↔ st.Joins s goals τ j.1 := by
  induction goals generalizing s j with
  | nil =>
    obtain rfl := List.mem_singleton.1 hj
    exact ⟨.refl s, hs, fun τ => by simp [joins_nil_iff]⟩
  | cons g rest ih =>
    cases g with
    | check c =>
      rw [join] at hj
      split at hj
      · rename_i hc
        obtain ⟨hextended, hacyclic, hiff⟩ := ih hs hj
        refine ⟨hextended, hacyclic, fun τ => ?_⟩
        rw [hiff, joins_check_iff]
        exact ⟨fun h => ⟨(Check.run_iff hc h.respects).1 rfl, h⟩, And.right⟩
      · cases hj
    | pattern t =>
      obtain ⟨p, -, hj⟩ := List.mem_flatMap.1 hj
      obtain ⟨e, s', j', hp, hu, hj', rfl⟩ := mem_joinAt_iff.1 hj
      obtain ⟨u, ground, rfl⟩ := exists_fact hfacts hp
      have hunified := Bindings.unified_of_unifyTriple hs hu
      obtain ⟨hextended, hacyclic, hiff⟩ := ih hunified.acyclic hj'
      refine ⟨hunified.extended.trans hextended, hacyclic, fun τ => ?_⟩
      rw [hiff, joins_iff_of_unifyTriple (u := u) hs hu, joins_pattern_iff, ← fact_at_iff hp]
      constructor
      · rintro ⟨hfact, hjoins⟩
        exact ⟨p, j'.1, rfl, hfact, hjoins⟩
      · rintro ⟨_, _, ⟨⟩, hfact, hjoins⟩
        exact ⟨hfact, hjoins⟩

/-- **The loops find every tuple** that some assignment joins. -/
theorem exists_mem_join (hst : st.Reachable) (hfacts : ∀ r, .rule r ∉ st.entries) (mode : Retrieval)
    {shown : List Term} (hsafe : Search.Safe shown (s, goals)) (h : st.Joins s goals τ tuple) :
    ∃ s', (tuple, s') ∈ st.join mode goals s := by
  have hrules : ∀ r, .rule r ∈ st.entries → r.RangeRestricted := fun r hr => absurd hr (hfacts r)
  induction goals generalizing s tuple with
  | nil =>
    obtain ⟨-, rfl⟩ := joins_nil_iff.1 h
    exact ⟨s, List.mem_singleton_self _⟩
  | cons g rest ih =>
    cases g with
    | check c =>
      obtain ⟨hc, hjoins⟩ := joins_check_iff.1 h
      obtain ⟨b, hb⟩ := hsafe.exists_run
      obtain rfl : b = true := (Check.run_iff hb h.respects).2 hc
      rw [join, hb]
      exact ih hsafe.pass hjoins
    | pattern t =>
      obtain ⟨p, ps, rfl, hfact, hjoins⟩ := joins_pattern_iff.1 h
      obtain ⟨ground, hp⟩ := hfact
      -- the pattern has the value of the fact, so that the fact is a candidate and matches
      have hequal : t.map (subst τ) = (t.map (subst τ)).map (subst τ) := (fact_at_iff hp).1 ⟨ground, hp⟩
      have hhead : t.map (subst τ) = ((Entry.fact _ ground).headAt 0).map (subst τ) := hequal
      have hcandidate : p ∈ st.candidates mode s t := hst.mem_candidates mode h.respects hp hhead
      cases hu : s.unifyTriple t (t.map (subst τ)) with
      | none => exact absurd hequal (Bindings.not_equal_of_unifyTriple_eq_none hsafe.acyclic hu h.respects)
      | some s' =>
        have hrest : st.Joins s' rest τ ps := (joins_iff_of_unifyTriple hsafe.acyclic hu).2 ⟨hequal, hjoins⟩
        obtain ⟨r, hr⟩ := ih (hsafe.enter (n := 0) hrules hp hu) hrest
        exact ⟨r, List.mem_flatMap.2 ⟨p, hcandidate, mem_joinAt_iff.2 ⟨_, s', _, hp, hu, hr, rfl⟩⟩⟩

/-- **The loops find the tuples in lexicographic order**, each once. -/
theorem pairwise_join (hst : st.Reachable) (mode : Retrieval) (goals : List Goal) (s : Bindings) :
    ((st.join mode goals s).map Prod.fst).Pairwise (List.Lex (· < ·)) := by
  induction goals generalizing s with
  | nil => exact List.pairwise_singleton _ _
  | cons g rest ih =>
    cases g with
    | check c =>
      rw [join]
      split
      · exact ih s
      · exact .nil
    | pattern t =>
      rw [join, List.map_flatMap, List.pairwise_flatMap]
      constructor
      · intro p _
        rw [joinAt]
        split
        · split
          · rename_i s' _
            rw [List.map_map, List.pairwise_map]
            exact (List.pairwise_map.1 (ih s')).imp fun h => .cons h
          · exact .nil
        · exact .nil
      · refine (hst.pairwise_candidates mode s t).imp fun hlt => ?_
        intro ps hps qs hqs
        obtain ⟨j, hj, rfl⟩ := List.mem_map.1 hps
        obtain ⟨j', hj', rfl⟩ := List.mem_map.1 hqs
        obtain ⟨_, _, _, -, -, -, rfl⟩ := mem_joinAt_iff.1 hj
        obtain ⟨_, _, _, -, -, -, rfl⟩ := mem_joinAt_iff.1 hj'
        exact .rel hlt

end Store

/-! ### The search -/

namespace Search

variable {st : Store} {mode : Retrieval} {s s' : Bindings} {goals : List Goal} {S S' S'' : Search}
  {as bs : List Bindings}

/-- After some steps the search has brought these answers and nothing else. -/
def Finds (st : Store) (mode : Retrieval) (S : Search) (as : List Bindings) (S' : Search) : Prop :=
  ∃ k, Step.results (step st mode) k S = as.map .answer ∧ Step.after (step st mode) k S = S'

theorem Finds.refl (S : Search) : Finds st mode S [] S := ⟨0, rfl, rfl⟩

theorem Finds.step {es : List Event} (h : Finds st mode S' as S'') (hstep : Transition st mode S ⟨.moved, S', es⟩) :
    Finds st mode S as S'' := by
  obtain ⟨k, hresults, hafter⟩ := h
  refine ⟨k + 1, ?_, ?_⟩
  · rw [Step.results, transition_iff.1 hstep]
    exact hresults
  · rw [Step.after, transition_iff.1 hstep]
    exact hafter

theorem Finds.append (h : Finds st mode S as S') (h' : Finds st mode S' bs S'') : Finds st mode S (as ++ bs) S'' := by
  obtain ⟨k, hresults, hafter⟩ := h
  obtain ⟨k', hresults', hafter'⟩ := h'
  refine ⟨k + k', ?_, ?_⟩
  · rw [Step.results_add, hafter, hresults, hresults', List.map_append]
  · rw [Step.after_add, hafter, hafter']

theorem finds_answer (n : Nat) (s : Bindings) (C : List Choice) :
    Finds st mode ⟨n, some (s, []), C⟩ [s] ⟨n, none, C⟩ := ⟨1, rfl, rfl⟩

/-- A search that has nothing left after its answers has come to its end. -/
theorem Finds.exhausts {n : Nat} (h : Finds st mode S as ⟨n, none, []⟩) : Step.Exhausts (Search.step st mode) S as := by
  obtain ⟨k, hresults, hafter⟩ := h
  refine Step.exhausts_iff.2 ⟨k + 1, ?_⟩
  rw [Step.results_add, hafter, hresults, results_ended]
  rfl

/-- **A search among facts goes through the loops.** -/
theorem finds_join (hfacts : ∀ r, .rule r ∉ st.entries) (mode : Retrieval) (n : Nat) {shown : List Term}
    (hsafe : Safe shown (s, goals)) (C : List Choice) :
    Finds st mode ⟨n, some (s, goals), C⟩ ((st.join mode goals s).map Prod.snd) ⟨n, none, C⟩ := by
  have hrules : ∀ r, .rule r ∈ st.entries → r.RangeRestricted := fun r hr => absurd hr (hfacts r)
  induction goals generalizing s C with
  | nil => exact finds_answer n s C
  | cons g rest ih =>
    cases g with
    | check c =>
      obtain ⟨b, hb⟩ := hsafe.exists_run
      rw [Store.join, hb]
      cases b with
      | true => exact (ih hsafe.pass C).step (.pass n rest C hb)
      | false => exact (Finds.refl _).step (.fail n rest C hb)
    | pattern t =>
      have hloop (ps : List Nat) : Finds st mode ⟨n, none, ⟨s, t, rest, ps⟩ :: C⟩
          ((ps.flatMap (st.joinAt s t (st.join mode rest))).map Prod.snd) ⟨n, none, C⟩ := by
        induction ps with
        | nil => exact (Finds.refl _).step (.close n s t rest C)
        | cons p ps hps =>
          rw [List.flatMap_cons, List.map_append]
          refine Finds.append (?_ : Finds st mode _ _ ⟨n, none, ⟨s, t, rest, ps⟩ :: C⟩) hps
          rw [Store.joinAt]
          cases hp : st.get? p with
          | none => exact (Finds.refl _).step (.absent n s t rest ps C hp)
          | some e =>
            obtain ⟨u, ground, rfl⟩ := Store.exists_fact hfacts hp
            dsimp only [Entry.head]
            cases hu : s.unifyTriple t u with
            | none => exact (Finds.refl _).step (.skip n rest ps C hp hu)
            | some s' =>
              have hfound := ih (hsafe.enter (n := n) hrules hp hu) (⟨s, t, rest, ps⟩ :: C)
              dsimp only
              rw [List.map_map]
              exact hfound.step (.enter n rest ps C hp hu)
      exact (hloop _).step (.select n s t rest C)

/-- **A query over facts is an ordered join.** In a store without rules the search for patterns and checks, each check
after the patterns that have its variables, comes to its end without an error, from any acyclic bindings. Its answers
are those of the tuples of positions that some assignment joins, in the lexicographic order of the tuples and one for
each; the answer of a tuple gives each pattern the fact at its position as the value. -/
theorem exhausts_join (hst : st.Reachable) (hfacts : ∀ r, .rule r ∉ st.entries) (mode : Retrieval) (hs : s.Acyclic)
    (hgoals : Goal.ChecksBound goals) (nextVar : Nat) : ∃ joined : List (List Nat × Bindings),
      Step.Exhausts (step st mode) (start s goals nextVar) (joined.map Prod.snd) ∧
        (joined.map Prod.fst).Pairwise (List.Lex (· < ·)) ∧
        (∀ tuple, (∃ τ, st.Joins s goals τ tuple) → tuple ∈ joined.map Prod.fst) ∧
        ∀ j ∈ joined, (∃ τ, Grounding τ ∧ st.Joins s goals τ j.1) ∧ s.ExtendedBy j.2 ∧ j.2.Acyclic ∧
          List.Forall₂ (fun t p => ∃ ground, st.get? p = some (.fact (t.map j.2.reify) ground)) (Goal.patterns goals)
            j.1 := by
  have hsafe := safe_start hs hgoals.guarded
  refine ⟨st.join mode goals s, (finds_join hfacts mode nextVar hsafe []).exhausts, st.pairwise_join hst mode goals s,
    fun tuple ⟨τ, h⟩ => ?_, fun j hj => ?_⟩
  · obtain ⟨s', hs'⟩ := Store.exists_mem_join hst hfacts mode hsafe h
    exact List.mem_map_of_mem hs'
  · obtain ⟨hextended, hacyclic, hiff⟩ := Store.mem_join hfacts hs hj
    obtain ⟨τ, hτ, hrespects⟩ := hacyclic.exists_grounding
    have hvalue := ((hiff j.2.value).1 hacyclic.respectedBy_value).facts
    have hreify : j.2.reify = subst j.2.value := funext fun t => j.2.reify_eq_subst t
    exact ⟨⟨τ, hτ, (hiff τ).1 hrespects⟩, hextended, hacyclic, hreify ▸ hvalue⟩

end Search

/-! ### An example -/

/-- Ann is a parent of Bob. -/
def Triple.annBob : Triple := ⟨.str "ann", .str "parent", .str "bob"⟩

/-- Bob is a parent of Cid. -/
def Triple.bobCid : Triple := ⟨.str "bob", .str "parent", .str "cid"⟩

theorem Triple.isGround_annBob : annBob.isGround = true := rfl

theorem Triple.isGround_bobCid : bobCid.isGround = true := rfl

/-- A family that says twice that Ann is a parent of Bob. -/
def Store.generations : Store :=
  (((Store.withReferences [.str "parent"]).push (.fact .annBob Triple.isGround_annBob)).push
    (.fact .annBob Triple.isGround_annBob)).push (.fact .bobCid Triple.isGround_bobCid)

theorem Store.reachable_generations : generations.Reachable :=
  .addFact (.addFact (.addFact (.withReferences _) (t := .annBob) rfl) (t := .annBob) rfl) (t := .bobCid) rfl

/-- Who is a grandparent of whom, not through Ann? -/
def Goal.grandparents : List Goal :=
  [.pattern ⟨.var 0, .str "parent", .var 1⟩, .check (.distinct (.var 1) (.str "ann")),
    .pattern ⟨.var 1, .str "parent", .var 2⟩]

/-- Ann, Bob and Cid. -/
def annBobCid : Nat → Term
  | 0 => .str "ann"
  | 1 => .str "bob"
  | _ => .str "cid"

example : (Store.generations.join .indexed Goal.grandparents .empty).map Prod.fst = [[0, 2], [1, 2]] := by rfl

/-- That Ann is a grandparent of Cid is found through each of the two facts. -/
theorem Search.exhausts_join_generations : ∃ joined : List (List Nat × Bindings),
    Step.Exhausts (step .generations .indexed) (start .empty Goal.grandparents 3) (joined.map Prod.snd) ∧
      [0, 2] ∈ joined.map Prod.fst ∧ [1, 2] ∈ joined.map Prod.fst := by
  have hfacts : ∀ r, .rule r ∉ Store.generations.entries := by
    simp [Store.generations, Store.push, Store.withReferences]
  have hguarded : Guarded [] [] Goal.grandparents := by decide
  have hchecks := (guarded_iff.1 hguarded).1
  simp only [List.not_mem_nil, false_or] at hchecks
  obtain ⟨joined, hexhausts, -, hall, -⟩ := exhausts_join Store.reachable_generations hfacts .indexed
    Bindings.acyclic_empty hchecks 3
  have hjoins (p : Nat) (hp : Store.generations.get? p = some (.fact .annBob Triple.isGround_annBob)) :
      Store.generations.Joins .empty Goal.grandparents annBobCid [p, 2] := by
    refine ⟨fun v t hv => by simp at hv, .cons ⟨Triple.isGround_annBob, hp⟩ (.cons ⟨Triple.isGround_bobCid, rfl⟩ .nil),
      fun c hc => ?_⟩
    obtain rfl : c = .distinct (.var 1) (.str "ann") := by simpa [Goal.grandparents] using hc
    simp [Check.Holds, subst, annBobCid]
  exact ⟨joined, hexhausts, hall _ ⟨_, hjoins 0 rfl⟩, hall _ ⟨_, hjoins 1 rfl⟩⟩

end TripleStore
