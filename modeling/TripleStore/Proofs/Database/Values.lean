import TripleStore.Proofs.Database.Appends
import TripleStore.Proofs.Database.Questions
import TripleStore.Proofs.Search.Underived

/-!
# The values of attributes

The values of an attribute of an entity are those that the facts give it (`Store.values`), if no rule derives the
attribute. The query for them comes to its end with one row for each, in the order of the facts
(`Store.exhausts_valueQuery`), so a database finds them with every bound on the number of steps that is large enough
(`Database.findAll_eq`). Whatever rules there are, where all values are found the first of them is what looking for one
value finds; it takes no more steps, as the search stops there (`Database.find_of_findAll`). Together this says that
looking up an attribute reads a multimap, unless rules derive the attribute (**`Database.lookup_values`**).
-/

namespace TripleStore

open Term

variable {st : Store} {db : Database} {id : Term} {attr : String} {query : Query} {steps steps' : Nat}

/-- The values that the facts of a store give to an attribute of an entity, in their order. -/
def Store.values (st : Store) (id : Term) (attr : String) : List Term :=
  (st.facts.filter fun t => t.entity = id ∧ t.attr = .str attr).map Triple.value

theorem Store.isGround_of_mem_facts {u : Triple} (hu : u ∈ st.facts) : u.isGround = true := by
  obtain ⟨ground, -⟩ := mem_facts_iff.1 hu
  exact ground

theorem Store.isGround_of_mem_values {t : Term} (ht : t ∈ st.values id attr) : t.isGround = true := by
  obtain ⟨u, hu, rfl⟩ := List.mem_map.1 ht
  exact (Triple.isGround_iff.1 (isGround_of_mem_facts (List.mem_filter.1 hu).1)).2.2

/-- A fact gives its value, if it is about the attribute of the entity. -/
theorem Store.resolveFact_gives_value (hid : id.isGround = true)
    {rest : Bindings × Nat → Resolution (Bindings × Nat)} (hrest : ∀ a, rest a = .answer a) {u : Triple}
    (hu : u.isGround = true) :
    (resolveFact .empty 1 ⟨id, .str attr, .var 0⟩ rest u).Gives
      (if u.entity = id ∧ u.attr = .str attr then [u.value] else []) := by
  refine resolveFact_gives Bindings.acyclic_empty hu ?_ ?_
  · rintro s' - - rfl
    refine ⟨⟨Bindings.reify_of_isGround hid s', Bindings.reify_of_isGround rfl s'⟩, ?_⟩
    rw [hrest]
    exact ⟨rfl, rfl⟩
  · rintro ⟨rfl, hattr⟩
    refine ⟨fun _ => u.value, Bindings.respectedBy_empty _, ?_⟩
    rw [Triple.map, subst_of_isGround hid, subst_of_isGround (t := .str attr) rfl, ← hattr]
    rfl

/-- **The query for the values of an attribute** brings the values in the facts, in their order. -/
theorem Store.exhausts_valueQuery (hst : st.Reachable) (hattr : st.Underived (.str attr)) (mode : Retrieval)
    (hid : id.isGround = true) (hquery : query.Asks "value" [.pattern ⟨id, .str attr, .var 0⟩]) :
    Step.Exhausts (Rows.step st mode query) (Rows.start query) ((st.values id attr).map (.single "value")) := by
  have hlast (a : Bindings × Nat) : st.resolveGoals .fullScan (st.resolve .fullScan 0) [] a = .answer a := rfl
  have hvalues : st.values id attr
      = st.facts.flatMap fun u => if u.entity = id ∧ u.attr = .str attr then [u.value] else [] := by
    rw [values, ← List.filterMap_eq_map, List.filterMap_filter, List.filterMap_eq_flatMap_toList]
    refine List.flatMap_congr fun u _ => ?_
    split <;> simp_all
  refine hquery.exhausts hst mode ?_ fun t => isGround_of_mem_values
  rw [resolve, resolveGoals_underived hattr rfl, hvalues]
  exact .concat fun u hu => resolveFact_gives_value hid hlast (isGround_of_mem_facts hu)

/-! ### Finding values -/

namespace Database

theorem exists_valueQuery (hid : id.isGround = true) (attr : String) :
    ∃ query, (valueQuery id attr).result = .ok query ∧ query.Asks "value" [.pattern ⟨id, .str attr, .var 0⟩] := by
  have hvars : ∀ g ∈ [Goal.pattern ⟨id, .str attr, .var 0⟩], ∀ v ∈ g.vars, v = 0 := by
    intro g hg v hv
    obtain rfl := List.mem_singleton.1 hg
    rcases Triple.mem_vars.1 hv with hv | hv | hv
    · exact absurd hv (isGround_iff.1 hid v)
    · cases hv
    · exact mem_vars_var.1 hv
  obtain ⟨query, hquery⟩ : ∃ query, (valueQuery id attr).result = .ok query := exists_queryOf "value" hvars
  exact ⟨query, hquery, asks_of_queryOf hquery⟩

/-- **All values of an attribute** are found. -/
theorem findAll_eq (hst : db.store.Reachable) (hattr : db.store.Underived (.str attr)) (hid : id.isGround = true) :
    ∃ bound, ∀ steps, bound ≤ steps → (db.findAll steps id attr).result = .ok (db.store.values id attr) := by
  obtain ⟨query, hvalue, hquery⟩ := exists_valueQuery hid attr
  obtain ⟨bound, hall⟩ := allRows_eq (Store.exhausts_valueQuery hst hattr db.retrieval hid hquery)
  refine ⟨bound, fun steps hsteps => ?_⟩
  rw [findAll, Traced.result_bind hvalue, Traced.result_bind (hall steps hsteps), Row.filterMap_get?_single]
  rfl

/-- Where all values are found, the first of them is found. -/
theorem find_of_findAll {values : List Term} (h : (db.findAll steps id attr).result = .ok values)
    (hle : steps ≤ steps') : (db.find steps' id attr).result = .ok values.head? := by
  obtain ⟨query, hquery, h⟩ := Traced.exists_of_result_bind h
  obtain ⟨rows, hrows, h⟩ := Traced.exists_of_result_bind h
  cases h
  rw [find, Traced.result_bind hquery, Traced.result_bind (firstRow_of_allRows hrows hle)]
  cases hlist : rows with
  | nil => rfl
  | cons row rest =>
    obtain ⟨s, hs⟩ := exists_row?_of_allRows hrows (hlist ▸ List.mem_cons_self)
    obtain ⟨value, hvalue⟩ := (asks_of_queryOf hquery).exists_get? hs
    rw [List.filterMap_cons_some (f := fun row : Row => row.get? "value") hvalue]
    exact congrArg Except.ok hvalue

/-- **Attributes are looked up in the facts.** In every database that the operations lead to, whatever its schema and its
way to find candidates, the values of an attribute of a ground entity are found, with enough steps, if every rule has
another ground attribute in its head: all of them are the values in the facts, in the order of the facts and with
repetitions, and the first one is the first of these, if there is one. In any database, whatever its rules, looking up
one value finds the first of the values that looking up all of them finds. -/
theorem lookup_values :
    (∀ {db : Database}, db.Reachable → ∀ {id : Term} {attr : String}, id.isGround = true →
      db.store.Underived (.str attr) → ∃ bound, ∀ steps, bound ≤ steps →
        (db.findAll steps id attr).result = .ok (db.store.values id attr) ∧
          (db.find steps id attr).result = .ok (db.store.values id attr).head?) ∧
      ∀ (db : Database) (id : Term) (attr : String) {steps steps' : Nat} {values : List Term}, steps ≤ steps' →
        (db.findAll steps id attr).result = .ok values → (db.find steps' id attr).result = .ok values.head? := by
  refine ⟨fun {db} hdb {id attr} hid hattr => ?_, fun db id attr {steps steps' values} hle h => find_of_findAll h hle⟩
  obtain ⟨bound, hall⟩ := findAll_eq hdb.store hattr hid
  exact ⟨bound, fun steps hsteps => ⟨hall steps hsteps, find_of_findAll (hall bound le_rfl) hsteps⟩⟩

/-! ### An example -/

/-- The family, with its fact twice. -/
def familyTwice : Database := { family with store := family.store.push (.fact _ Triple.isGround_parent) }

theorem reachable_familyTwice : familyTwice.Reachable := by
  have hfact : family.addFact ⟨.str "ann", .str "parent", .str "bob"⟩ = .ok familyTwice := rfl
  exact .appends reachable_family (.fact hfact)

theorem underived_family : family.store.Underived (.str "parent") := by
  intro r hr
  obtain rfl : r = .ancestor := by
    simpa [family, Store.family, Store.push, Store.addRule, Store.withReferences] using hr
  exact ⟨rfl, by decide⟩

/-- Bob is found twice among the parents of Ann; and he is the first of her ancestors, as he is the only one. -/
theorem lookup_values_familyTwice : ∃ bound, ∀ steps, bound ≤ steps →
    (familyTwice.findAll steps (.str "ann") "parent").result = .ok [.str "bob", .str "bob"] ∧
      (familyTwice.find steps (.str "ann") "parent").result = .ok (some (.str "bob")) ∧
        (family.find steps (.str "ann") "ancestor").result = .ok (some (.str "bob")) := by
  have hann : (Term.str "ann").isGround = true := rfl
  obtain ⟨bound, hparent⟩ := lookup_values.1 reachable_familyTwice hann (underived_family.push _ _)
  have hancestor : (family.findAll 30 (.str "ann") "ancestor").result = .ok [.str "bob"] := by rfl
  refine ⟨max bound 30, fun steps hsteps => ?_⟩
  obtain ⟨hall, hfirst⟩ := hparent steps ((Nat.le_max_left _ _).trans hsteps)
  exact ⟨hall, hfirst, lookup_values.2 family _ _ ((Nat.le_max_right _ _).trans hsteps) hancestor⟩

end Database

end TripleStore
