import Mathlib.Algebra.BigOperators.Ring.List
import TripleStore.Proofs.Bindings.Growth
import TripleStore.Proofs.Database.Values
import TripleStore.Proofs.Lists

/-!
# Entities by their values

A database looks for the entities that have some values of some attributes by a query with one pattern for each. If no
rule derives the attributes, then the facts for the first pattern bring the entities, and the facts for the others let
each of them through as often as there are choices of such facts (`Store.copies`). So the rows of the query repeat an
entity, and stand in the order of the facts for the first pattern (`Store.exhausts_entitiesQuery`). Without the
repetitions they are the intersection of the sets of entities that the single values have
(**`Database.entitiesWhere_intersection`**).
-/

namespace TripleStore

open Term

variable {st : Store} {db : Database} {query : Query} {params rest : List (String × Term)} {first : String × Term}
  {e : Term} {u : Triple} {call : Bindings → Nat → List Goal → Resolution (Bindings × Nat)}

namespace Store

/-- The number of ways to choose for each of some values of attributes a fact that gives it to an entity. -/
def copies (st : Store) (params : List (String × Term)) (e : Term) : Nat :=
  (params.map fun p => st.facts.count ⟨e, .str p.1, p.2⟩).prod

theorem copies_cons (p : String × Term) (params : List (String × Term)) (e : Term) :
    st.copies (p :: params) e = st.facts.count ⟨e, .str p.1, p.2⟩ * st.copies params e := by
  rw [copies, List.map_cons, List.prod_cons, copies]

theorem copies_ne_zero_iff : st.copies params e ≠ 0 ↔ ∀ p ∈ params, ⟨e, .str p.1, p.2⟩ ∈ st.facts := by
  rw [copies, Ne, List.prod_eq_zero_iff, List.mem_map]
  simp only [List.count_eq_zero, not_exists, not_and, not_not]

/-- The values are ground, and no rule derives the attributes. -/
def Lookups (st : Store) (params : List (String × Term)) : Prop :=
  ∀ p ∈ params, p.2.isGround = true ∧ st.Underived (.str p.1)

/-- **An entity that has been found is let through** as often as there are choices of facts for it. The induction is on
the patterns that are left; the bindings grow, but the value of the variable stays. -/
theorem resolveGoals_gives_copies (hparams : st.Lookups params) {s : Bindings} (hs : s.Acyclic)
    (hentity : s.reify (.var 0) = e) (he : e.isGround = true) (n : Nat) :
    (st.resolveGoals .fullScan call (params.map fun p => .pattern ⟨.var 0, .str p.1, p.2⟩) (s, n)).Gives
      (.replicate (st.copies params e) e) := by
  induction params generalizing s with
  | nil => exact ⟨rfl, by rw [← hentity]; rfl⟩
  | cons p params ih =>
    obtain ⟨⟨hvalue, hattr⟩, hparams⟩ := List.forall_mem_cons.1 hparams
    rw [List.map_cons, resolveGoals_underived hattr rfl, copies_cons, ← flatMap_ite_replicate]
    refine .concat fun u hu => resolveFact_gives hs (isGround_of_mem_facts hu) ?_ ?_
    · rintro s' hs' (hextended : s.ExtendedBy s') rfl
      have hstays : s'.reify (.var 0) = e := by
        rw [hextended.reify_eq_of_isGround hs' (hentity ▸ he), hentity]
      refine ⟨?_, ih hparams hs' hstays⟩
      rw [Triple.map, hstays, Bindings.reify_of_isGround hvalue, Bindings.reify_of_isGround (t := .str p.1) rfl]
    · rintro rfl
      refine ⟨s.value, hs.respectedBy_value, ?_⟩
      rw [Triple.map, ← Bindings.reify_eq_subst, hentity, subst_of_isGround hvalue,
        subst_of_isGround (t := .str p.1) rfl]

/-- What a fact for the first pattern brings: its entity, as often as the other patterns let it through. -/
def found (st : Store) (first : String × Term) (rest : List (String × Term)) (u : Triple) : List Term :=
  if u.attr = .str first.1 ∧ u.value = first.2 then .replicate (st.copies rest u.entity) u.entity else []

theorem mem_found_iff :
    e ∈ st.found first rest u ↔ u = ⟨e, .str first.1, first.2⟩ ∧ st.copies rest e ≠ 0 := by
  rw [found]
  split
  next h =>
    rw [List.mem_replicate]
    constructor
    · rintro ⟨hne, rfl⟩
      exact ⟨by rw [← h.1, ← h.2], hne⟩
    · rintro ⟨rfl, hne⟩
      exact ⟨hne, rfl⟩
  next h =>
    refine iff_of_false List.not_mem_nil ?_
    rintro ⟨rfl, -⟩
    exact h ⟨rfl, rfl⟩

theorem resolveFact_gives_found (hfirst : first.2.isGround = true) (hrest : st.Lookups rest)
    (hu : u.isGround = true) :
    (resolveFact .empty 1 ⟨.var 0, .str first.1, first.2⟩
      (st.resolveGoals .fullScan call (rest.map fun p => .pattern ⟨.var 0, .str p.1, p.2⟩)) u).Gives
      (st.found first rest u) := by
  refine resolveFact_gives Bindings.acyclic_empty hu ?_ ?_
  · rintro s' hs' - rfl
    refine ⟨⟨Bindings.reify_of_isGround rfl s', Bindings.reify_of_isGround hfirst s'⟩, ?_⟩
    exact resolveGoals_gives_copies hrest hs' rfl (Triple.isGround_iff.1 hu).1 1
  · rintro ⟨hattr, hvalue⟩
    refine ⟨fun _ => u.entity, Bindings.respectedBy_empty _, ?_⟩
    rw [Triple.map, subst_of_isGround hfirst, subst_of_isGround (t := .str first.1) rfl, ← hattr, ← hvalue]
    rfl

/-- **The query for the entities with some values** brings what the facts for the first one bring, in their order. -/
theorem exhausts_entitiesQuery (hst : st.Reachable) (hparams : st.Lookups (first :: rest)) (mode : Retrieval)
    (hquery : query.Asks "id" ((first :: rest).map fun p => .pattern ⟨.var 0, .str p.1, p.2⟩)) :
    Step.Exhausts (Rows.step st mode query) (Rows.start query)
      ((st.facts.flatMap (st.found first rest)).map (.single "id")) := by
  obtain ⟨⟨hvalue, hattr⟩, hrest⟩ := List.forall_mem_cons.1 hparams
  refine hquery.exhausts hst mode ?_ ?_
  · rw [resolve, List.map_cons, resolveGoals_underived hattr rfl]
    exact .concat fun u hu => resolveFact_gives_found hvalue hrest (isGround_of_mem_facts hu)
  · intro t ht
    obtain ⟨u, hu, ht⟩ := List.mem_flatMap.1 ht
    obtain ⟨rfl, -⟩ := mem_found_iff.1 ht
    exact (Triple.isGround_iff.1 (isGround_of_mem_facts hu)).1

/-- What is found has all the values, and nothing else has. -/
theorem mem_flatMap_found_iff :
    e ∈ st.facts.flatMap (st.found first rest) ↔ ∀ p ∈ first :: rest, ⟨e, .str p.1, p.2⟩ ∈ st.facts := by
  rw [List.mem_flatMap, List.forall_mem_cons, ← copies_ne_zero_iff]
  constructor
  · rintro ⟨u, hu, he⟩
    obtain ⟨rfl, hne⟩ := mem_found_iff.1 he
    exact ⟨hu, hne⟩
  · rintro ⟨hu, hne⟩
    exact ⟨_, hu, mem_found_iff.2 ⟨rfl, hne⟩⟩

/-- Without repetitions, what is found stands in the order of the facts for the first pattern. -/
theorem pairwise_eraseDups_found (st : Store) (first : String × Term) (rest : List (String × Term)) :
    (st.facts.flatMap (st.found first rest)).eraseDups.Pairwise fun e e' =>
      st.facts.idxOf ⟨e, .str first.1, first.2⟩ < st.facts.idxOf ⟨e', .str first.1, first.2⟩ := by
  have hone : ∀ u, ∀ e ∈ st.found first rest u, ∀ e' ∈ st.found first rest u, e = e' := by
    intro u e he e' he'
    obtain ⟨rfl, -⟩ := mem_found_iff.1 he
    obtain ⟨heq, -⟩ := mem_found_iff.1 he'
    exact congrArg Triple.entity heq
  -- an entity that is found is found at its first fact
  have hposition : ∀ e ∈ (st.facts.flatMap (st.found first rest)).eraseDups,
      (st.facts.findIdx fun u => (st.found first rest u).contains e)
        = st.facts.idxOf ⟨e, .str first.1, first.2⟩ := by
    intro e he
    obtain ⟨u, -, he⟩ := List.mem_flatMap.1 (List.mem_eraseDups.1 he)
    obtain ⟨-, hne⟩ := mem_found_iff.1 he
    have hcontains (u : Triple) : (st.found first rest u).contains e = (u == ⟨e, .str first.1, first.2⟩) := by
      rw [Bool.eq_iff_iff, List.contains_iff_mem, mem_found_iff, beq_iff_eq, and_iff_left hne]
    rw [List.idxOf, funext hcontains]
  refine (pairwise_eraseDups_flatMap hone st.facts).imp_of_mem fun {e e'} he he' h => ?_
  rwa [hposition e he, hposition e' he'] at h

end Store

/-! ### Finding entities -/

namespace Database

theorem exists_entitiesQuery (hparams : db.store.Lookups params) :
    ∃ query, (queryOf "id" fun id => params.map fun p => .pattern ⟨id, .str p.1, p.2⟩).result = .ok query := by
  refine exists_queryOf "id" fun g hg v hv => ?_
  obtain ⟨p, hp, rfl⟩ := List.mem_map.1 hg
  rcases Triple.mem_vars.1 hv with hv | hv | hv
  · exact mem_vars_var.1 hv
  · cases hv
  · exact absurd hv (isGround_iff.1 (hparams p hp).1 v)

theorem entitiesWhere_eq (hst : db.store.Reachable) (hparams : db.store.Lookups (first :: rest)) :
    ∃ bound, ∀ steps, bound ≤ steps → (db.entitiesWhere steps (first :: rest)).result
      = .ok (db.store.facts.flatMap (db.store.found first rest)).eraseDups := by
  obtain ⟨query, hquery⟩ := exists_entitiesQuery hparams
  obtain ⟨bound, hall⟩ :=
    allRows_eq (Store.exhausts_entitiesQuery hst hparams db.retrieval (asks_of_queryOf hquery))
  refine ⟨bound, fun steps hsteps => ?_⟩
  rw [entitiesWhere, Traced.result_bind hquery, Traced.result_bind (hall steps hsteps), Row.filterMap_get?_single]
  rfl

/-- **The entities with some values are an intersection.** In every database that the operations lead to, whatever its
schema and its way to find candidates, for one or more attributes with ground values: if every rule has another ground
attribute in its head, then the entities that have all of these values are found, with enough steps. They are those for
which the facts say so of every pair, whatever the pairs have in common; each of them comes once, however often its
facts are repeated; and they stand in the order of the first fact that gives them the first value. -/
theorem entitiesWhere_intersection (hdb : db.Reachable) (hground : ∀ p ∈ first :: rest, p.2.isGround = true)
    (hattrs : ∀ p ∈ first :: rest, db.store.Underived (.str p.1)) :
    ∃ ids, (∃ bound, ∀ steps, bound ≤ steps → (db.entitiesWhere steps (first :: rest)).result = .ok ids) ∧
      ids.Nodup ∧ (∀ e, e ∈ ids ↔ ∀ p ∈ first :: rest, ⟨e, .str p.1, p.2⟩ ∈ db.store.facts) ∧
        ids.Pairwise fun e e' => db.store.facts.idxOf ⟨e, .str first.1, first.2⟩
          < db.store.facts.idxOf ⟨e', .str first.1, first.2⟩ := by
  have hparams : db.store.Lookups (first :: rest) := fun p hp => ⟨hground p hp, hattrs p hp⟩
  have hordered := db.store.pairwise_eraseDups_found first rest
  refine ⟨_, entitiesWhere_eq hdb.store hparams, ?_, fun e => ?_, hordered⟩
  · exact hordered.imp fun h heq => absurd (heq ▸ h) (lt_irrefl _)
  · rw [List.mem_eraseDups, Store.mem_flatMap_found_iff]

/-! ### An example -/

theorem isGround_sibling : Triple.isGround ⟨.str "cid", .str "parent", .str "bob"⟩ = true := rfl

/-- The family with its fact twice, and another child of Bob. -/
def siblings : Database := { familyTwice with store := familyTwice.store.push (.fact _ isGround_sibling) }

theorem reachable_siblings : siblings.Reachable := by
  have hfact : familyTwice.addFact ⟨.str "cid", .str "parent", .str "bob"⟩ = .ok siblings := rfl
  exact .appends reachable_familyTwice (.fact hfact)

theorem facts_siblings : siblings.store.facts = [⟨.str "ann", .str "parent", .str "bob"⟩,
    ⟨.str "ann", .str "parent", .str "bob"⟩, ⟨.str "cid", .str "parent", .str "bob"⟩] := rfl

theorem underived_siblings : siblings.store.Underived (.str "parent") := (underived_family.push _ _).push _ _

/-- Four rows say that Ann is a child of Bob, if this is asked twice, and she comes once, before Cid, whose fact came
after hers; and nobody is a child of both Bob and Dan. -/
theorem entitiesWhere_siblings : ∃ bound, ∀ steps, bound ≤ steps →
    (siblings.entitiesWhere steps [("parent", .str "bob"), ("parent", .str "bob")]).result
        = .ok [.str "ann", .str "cid"] ∧
      (siblings.entitiesWhere steps [("parent", .str "bob"), ("parent", .str "dan")]).result = .ok [] := by
  have hground (name : String) : ∀ p ∈ [("parent", Term.str "bob"), ("parent", .str name)], p.2.isGround = true :=
    List.forall_mem_cons.2 ⟨rfl, List.forall_mem_singleton.2 rfl⟩
  have hattrs (name : String) : ∀ p ∈ [("parent", Term.str "bob"), ("parent", .str name)],
      siblings.store.Underived (.str p.1) := by simp [underived_siblings]
  obtain ⟨ids, ⟨bound, hids⟩, hnodup, hmem, hordered⟩ :=
    entitiesWhere_intersection reachable_siblings (hground "bob") (hattrs "bob")
  obtain ⟨ids', ⟨bound', hids'⟩, -, hmem', -⟩ :=
    entitiesWhere_intersection reachable_siblings (hground "dan") (hattrs "dan")
  have hperm : ids.Perm [.str "ann", .str "cid"] := by
    refine (List.perm_ext_iff_of_nodup hnodup (by decide)).2 fun e => ?_
    rw [hmem, facts_siblings]
    simp
  obtain rfl : ids = [.str "ann", .str "cid"] := by
    refine hperm.eq_of_pairwise (fun e e' _ _ h h' => absurd (h.trans h') (lt_irrefl _)) hordered ?_
    rw [facts_siblings]
    decide
  obtain rfl : ids' = [] := by
    refine List.eq_nil_iff_forall_not_mem.2 fun e he => ?_
    have hdan := (hmem' e).1 he ("parent", .str "dan") (by decide)
    rw [facts_siblings] at hdan
    simp at hdan
  refine ⟨max bound bound', fun steps hsteps => ⟨?_, ?_⟩⟩
  · exact hids steps ((Nat.le_max_left _ _).trans hsteps)
  · exact hids' steps ((Nat.le_max_right _ _).trans hsteps)

end Database

end TripleStore
