import TripleStore.Database.Record
import TripleStore.Proofs.Database.Loading
import TripleStore.Proofs.Database.Values
import TripleStore.Proofs.Json.Ordered

/-!
# Records of what has been loaded

A pull of attributes from a database without rules has what the facts say of the entity (`Database.pull_attrs`). After a
document has been loaded into a new database, these are the facts that the document says, and the values that they give
to an attribute of an entity are the elements of its member there (`Facts.map_toJson_values`). So pulling the attributes
of an entity gives its object back, but for the shape of single values (**`Database.pull_loaded`**).
-/

namespace TripleStore

/-- What a pull gives for a member of an object: an array of all elements of an attribute that may have many, else the
first one. -/
def Json.held (many : Bool) : Json → Json
  | .array items => if many then .array items else items.head?.getD .null
  | value => if many then .array [value] else value

theorem Json.held_eq (many : Bool) (value : Json) :
    value.held many = if many then .array value.elements else value.elements.head?.getD .null := by
  cases many <;> cases value <;> rfl

/-! ### Pulling attributes -/

namespace Database

variable {db : Database} {id : Term} {attr : String} {steps : Nat}

/-- What the facts of a database hold for an attribute of an entity. -/
def held (db : Database) (id : Term) (attr : String) : Json :=
  if db.schema.isMany attr then .array ((db.store.values id attr).map Term.toJson)
  else ((db.store.values id attr).head?.map Term.toJson).getD .null

theorem attributeValue_eq (hst : db.store.Reachable) (hattr : db.store.Underived (.str attr))
    (hid : id.isGround = true) :
    ∃ bound, ∀ steps, bound ≤ steps → (db.attributeValue steps id attr).result = .ok (db.held id attr) := by
  obtain ⟨bound, hfound⟩ := findAll_eq hst hattr hid
  refine ⟨bound, fun steps hsteps => ?_⟩
  unfold attributeValue held
  split
  · rw [Traced.result_bind (hfound steps hsteps)]
    rfl
  · rw [Traced.result_bind (find_of_findAll (hfound bound le_rfl) hsteps)]
    rfl

theorem pullKeys_attrs {names : List String} {value : String → Json}
    (h : ∀ name ∈ names, (db.attributeValue steps id name).result = .ok (value name)) (record : Fields Json) :
    (db.pullKeys steps id record (names.map .attr)).result
      = .ok ((names.map fun name => (name, value name)).foldl (fun fields f => Fields.insert f.1 f.2 fields) record) := by
  induction names generalizing record with
  | nil => rw [List.map_nil, pullKeys]; rfl
  | cons name names ih =>
    obtain ⟨hname, hnames⟩ := List.forall_mem_cons.1 h
    have hkey : (db.pullKey steps id record (.attr name)).result = .ok (Fields.insert name (value name) record) := by
      rw [pullKey, Traced.result_bind hname]
      rfl
    rw [List.map_cons, pullKeys, Traced.result_bind hkey, ih hnames]
    rfl

/-- **A pull of attributes** from a database without rules has what its facts hold for each of them. -/
theorem pull_attrs (hst : db.store.Reachable) (hfacts : ∀ r, .rule r ∉ db.store.entries) (hid : id.isGround = true)
    (names : List String) :
    ∃ bound, ∀ steps, bound ≤ steps → (db.pull steps id (names.map .attr)).result
      = .ok (.object (Fields.ofList (names.map fun name => (name, db.held id name)))) := by
  have hvalue (name : String) (_ : name ∈ names) :=
    attributeValue_eq hst (Store.underived_of_facts hfacts (.str name)) hid
  obtain ⟨bound, hvalues⟩ := exists_bound_of_forall_mem hvalue
  refine ⟨bound, fun steps hsteps => ?_⟩
  rw [pull, Traced.result_bind (pullKeys_attrs (hvalues steps hsteps) [])]
  rfl

end Database

/-! ### What a document says of an attribute -/

namespace Cell

variable {id : Term} {attr : String}

/-- The cell is about the attribute of the entity. -/
def About (id : Term) (attr : String) (c : Cell) : Prop := c.entity = id ∧ c.attr = attr

instance : DecidablePred (About id attr) := fun _ => inferInstanceAs (Decidable (_ ∧ _))

theorem mem_ofMembers_iff {members : Fields Json} {c : Cell} :
    c ∈ ofMembers id members ↔ ∃ m ∈ members, c ∈ m.2.elements.map (Cell.mk id m.1) := by
  rw [ofMembers, List.mem_flatMap]

/-- What the cells of an object say of an attribute is its member. -/
theorem filter_ofMembers {members : Fields Json} (hmembers : members.Ascending) {m : String × Json} (hm : m ∈ members) :
    (ofMembers id members).filter (About id m.1) = m.2.elements.map (Cell.mk id m.1) := by
  have hother : ∀ m' : String × Json, m'.1 ≠ m.1 → ∀ c ∈ m'.2.elements.map (Cell.mk id m'.1),
      ¬decide (c.About id m.1) = true := by
    intro m' hne c hc habout
    obtain ⟨v, -, rfl⟩ := List.mem_map.1 hc
    exact hne (of_decide_eq_true habout).2
  rw [ofMembers, filter_flatMap_of_mem hmembers.nodup hm hother]
  refine List.filter_eq_self.2 fun c hc => ?_
  obtain ⟨v, -, rfl⟩ := List.mem_map.1 hc
  exact decide_eq_true ⟨rfl, rfl⟩

/-- What the cells of some objects say of an entity is its object. -/
theorem filter_ofObjects {objects : List (Term × Fields Json)} (hids : (objects.map Prod.fst).Nodup)
    {object : Term × Fields Json} (hobject : object ∈ objects) (attr : String) :
    (ofObjects objects).filter (About object.1 attr) = (ofMembers object.1 object.2).filter (About object.1 attr) := by
  refine filter_flatMap_of_mem hids hobject fun object' hne c hc habout => hne ?_
  obtain ⟨m, -, hc⟩ := mem_ofMembers_iff.1 hc
  obtain ⟨v, -, rfl⟩ := List.mem_map.1 hc
  exact (of_decide_eq_true habout).1

/-- The values that some facts give to an attribute of an entity are those in the cells about it. -/
theorem map_toJson_values {cells : List Cell} {facts : List Triple} (h : List.Forall₂ Says cells facts) (id : Term)
    (attr : String) : (facts.filter fun t => t.entity = id ∧ t.attr = .str attr).map (fun t => t.value.toJson)
      = (cells.filter (About id attr)).map Cell.value := by
  induction h with
  | nil => rfl
  | @cons c t _ _ hsays _ ih =>
    obtain ⟨hentity, hattr, -, hvalue⟩ := hsays
    have habout : (t.entity = id ∧ t.attr = .str attr) ↔ c.About id attr := by
      rw [hentity, hattr, About, Term.str.injEq]
    rw [List.filter_cons, List.filter_cons]
    by_cases h : c.About id attr
    · simp only [habout, h, decide_true, if_true, List.map_cons, hvalue, ih]
    · simp only [habout, h, decide_false, Bool.false_eq_true, if_false, ih]

end Cell

/-! ### What has been loaded -/

namespace Facts

/-- The entities of a document have its names. -/
theorem nodup_of_isEntity {entries : Fields Json} {objects : List (Term × Fields Json)}
    (h : List.Forall₂ IsEntity entries objects) (hentries : entries.Ascending) : (objects.map Prod.fst).Nodup := by
  have hids : objects.map Prod.fst = (entries.map Prod.fst).map Term.str := by
    induction h with
    | nil => rfl
    | cons hentity _ ih => rw [List.map_cons, hentity.2.1, ih (List.pairwise_cons.1 hentries).2]; rfl
  rw [hids]
  exact hentries.nodup.map fun _ _ => Term.str.inj

/-- **The values that the facts of a document give to an attribute** of an entity are the elements of the member. -/
theorem map_toJson_values {entries : Fields Json} (hdata : (Json.object entries).Ordered) {facts : List Triple}
    (h : OfDocument (.object entries) facts) {key : String} {body : Json} (hbody : (key, body) ∈ entries) :
    ∃ members : Fields Json, body = .object members ∧ Fields.Ascending members ∧ ∀ m ∈ members,
      (facts.filter fun t => t.entity = .str key ∧ t.attr = .str m.1).map (fun t => t.value.toJson)
        = m.2.elements := by
  obtain ⟨_, objects, ⟨⟩, hobjects, hsays⟩ := h
  obtain ⟨hentries, hbodies⟩ := hdata
  obtain ⟨object, hobject, -, hid, rfl⟩ := exists_mem_of_forall₂ hobjects hbody
  obtain ⟨hmembers, -⟩ := Json.orderedMembers_iff.1 hbodies _ hbody
  refine ⟨object.2, rfl, hmembers, fun m hm => ?_⟩
  have hcells := Cell.filter_ofObjects (nodup_of_isEntity hobjects hentries) hobject m.1
  rw [Cell.filter_ofMembers hmembers hm, hid] at hcells
  rw [Cell.map_toJson_values hsays, hcells, List.map_map]
  exact List.map_id _

end Facts

namespace Database

variable {db db' : Database}

theorem loadEntities_appended {data : Json} {count : Nat} (h : db.loadEntities data = .ok (count, db')) :
    ∃ facts, Facts.OfDocument data facts ∧ Appended facts db db' := by
  have hload : AllOrNothing (Facts.OfDocument data) List.length db (db.load (Facts.ofDocument data)) :=
    .load db (fun _ => Facts.ofDocument_eq_ok_iff) fun _ h => Facts.Read.isGround (.document h)
  rw [loadEntities_eq_ok_iff.1 h] at hload
  rcases hload with ⟨cause, heq, -⟩ | ⟨facts, _, ⟨⟩, honly, happended⟩
  · cases heq
  · exact ⟨facts, (honly facts).2 rfl, happended⟩

theorem Appended.rule_notMem {facts : List Triple} (h : Appended facts db db')
    (hfacts : ∀ r, .rule r ∉ db.store.entries) (r : Rule) : .rule r ∉ db'.store.entries := by
  obtain ⟨added, hentries, hadded⟩ := h.entries
  intro hr
  rw [← Array.mem_toList_iff, hentries, List.mem_append] at hr
  rcases hr with hr | hr
  · exact hfacts r (Array.mem_toList_iff.1 hr)
  · obtain ⟨t, -, ground, heq⟩ := exists_mem_of_forall₂_right hadded hr
    cases heq

/-- **What is loaded is pulled.** When an entity document has been accepted by a new database, for whatever schema and in
either way to find candidates, pulling the attributes of one of its entities succeeds with enough steps, and gives the
object of the entity back: each member as it is, but for an array where an attribute has no more than one value and a
single value where it may have many. -/
theorem pull_loaded {schema : Schema} {mode : Retrieval} {data : Json} (hdata : data.Ordered) {count : Nat}
    (hload : ((withSchema schema).setRetrieval mode).loadEntities data = .ok (count, db)) :
    ∃ entries, data = .object entries ∧ ∀ key body, (key, body) ∈ entries → ∃ members, body = .object members ∧
      ∀ names : List String, names.Perm (members.map Prod.fst) → ∃ bound, ∀ steps, bound ≤ steps →
        (db.pull steps (.str key) (names.map .attr)).result
          = .ok (.object (members.map fun m => (m.1, m.2.held (schema.isMany m.1)))) := by
  obtain ⟨facts, hsays, happended⟩ := loadEntities_appended hload
  have hreachable : db.store.Reachable :=
    (extended_of_load (loadEntities_eq_ok_iff.1 hload)).reachable (.withReferences schema.references)
  have hrules : ∀ r, .rule r ∉ db.store.entries := happended.rule_notMem fun r => Array.not_mem_empty _
  have hstored : db.store.facts = facts := happended.facts_eq
  have hschema : db.schema = schema := congrArg Database.schema happended.rest
  have ⟨entries, _, hobject, _⟩ := hsays
  subst hobject
  refine ⟨entries, rfl, fun key body hbody => ?_⟩
  obtain ⟨members, rfl, hmembers, hvalues⟩ := Facts.map_toJson_values hdata hsays hbody
  refine ⟨members, rfl, fun names hnames => ?_⟩
  have hkey : (Term.str key).isGround = true := rfl
  obtain ⟨bound, hpull⟩ := pull_attrs hreachable hrules hkey names
  have hheld : ∀ m ∈ members, db.held (.str key) m.1 = m.2.held (schema.isMany m.1) := by
    intro m hm
    rw [held, Json.held_eq, ← hvalues m hm, Store.values, hstored, hschema, ← List.head?_map, List.map_map]
    rfl
  have hfields : (names.map fun name => (name, db.held (.str key) name)).Perm
      (members.map fun m => (m.1, m.2.held (schema.isMany m.1))) := by
    have hmap := hnames.map fun name => (name, db.held (.str key) name)
    rw [List.map_map] at hmap
    exact hmap.trans (.of_eq (List.map_congr_left fun m hm => Prod.ext rfl (hheld m hm)))
  have hordered : Fields.Ascending (members.map fun m => (m.1, m.2.held (schema.isMany m.1))) :=
    List.pairwise_map.2 hmembers
  refine ⟨bound, fun steps hsteps => ?_⟩
  rw [hpull steps hsteps, Fields.ofList_eq_of_perm hordered hfields]

/-! ### An example -/

/-- Ann has two parents and one age, in an array; Bob has one parent. -/
def genealogy : Json :=
  .object [("ann", .object [("age", .array [.ofInt 42]), ("parent", .array [.string "bob", .string "cid"])]),
    ("bob", .object [("parent", .string "cid")])]

/-- An entity may have many parents. -/
def parentsSchema : Schema := ⟨[("parent", { many := true, reference := true })]⟩

theorem ordered_genealogy : genealogy.Ordered := by
  simp only [genealogy, Json.ofInt, Json.Ordered, Json.OrderedMembers, Json.OrderedAll]
  decide

/-- The parent of Bob becomes a list of one, and the age of Ann is taken out of its array. -/
theorem pull_loaded_genealogy :
    ∃ count db, ((withSchema parentsSchema).setRetrieval .indexed).loadEntities genealogy = .ok (count, db) ∧
      ∃ bound, ∀ steps, bound ≤ steps →
        (db.pull steps (.str "bob") [.attr "parent"]).result = .ok (.object [("parent", .array [.string "cid"])]) ∧
          (db.pull steps (.str "ann") [.attr "parent", .attr "age"]).result = .ok (.object [("age", .ofInt 42),
            ("parent", .array [.string "bob", .string "cid"])]) := by
  have hload : ((withSchema parentsSchema).setRetrieval .indexed).loadEntities genealogy
      = .ok (4, (((withSchema parentsSchema).setRetrieval .indexed).load (Facts.ofDocument genealogy)).2) := rfl
  obtain ⟨entries, heq, hpull⟩ := pull_loaded ordered_genealogy hload
  cases heq
  obtain ⟨_, ⟨⟩, hbob⟩ := hpull "bob" _ (.tail _ List.mem_cons_self)
  obtain ⟨_, ⟨⟩, hann⟩ := hpull "ann" _ List.mem_cons_self
  obtain ⟨bound, hbob⟩ := hbob ["parent"] (.refl _)
  obtain ⟨bound', hann⟩ := hann ["parent", "age"] (.swap _ _ _)
  refine ⟨_, _, hload, max bound bound', fun steps hsteps => ⟨?_, ?_⟩⟩
  · exact hbob steps ((Nat.le_max_left _ _).trans hsteps)
  · exact hann steps ((Nat.le_max_right _ _).trans hsteps)

end Database

end TripleStore
