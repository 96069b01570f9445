import TripleStore.Proofs.Database.Records

/-!
# Records are projections of the facts

The record that a pull gives can be read off the facts without searching (`Database.IsRecord`): it has a field for each
name that the keys mention, and what the last mention of a name asks for decides what stands there, be it the value or
the values of the attribute, or a record of each value, by the same rule with other keys. The relation leaves no choice
(`Database.IsRecord.unique`). A pull follows the mentions one by one and lets later ones replace what earlier ones gave
(`Database.Follows`), so it comes to this record if no rule derives what the keys mention
(**`Database.pull_projection`**), also where entities are related in a cycle.
-/

namespace TripleStore

/-! ### Computations with a bound on their steps -/

/-- With every bound on the number of steps that is large enough, the computation has the result. -/
def Traced.Reaches {α : Type} (x : Nat → Traced α) (a : α) : Prop :=
  ∃ bound, ∀ steps, bound ≤ steps → (x steps).result = .ok a

namespace Traced.Reaches

variable {α β : Type} {x : Nat → Traced α} {a : α} {b : β}

theorem pure (a : α) : Reaches (fun _ => Pure.pure a) a := ⟨0, fun _ _ => rfl⟩

theorem bind {f : Nat → α → Traced β} (hx : Reaches x a) (hf : Reaches (fun steps => f steps a) b) :
    Reaches (fun steps => x steps >>= f steps) b := by
  obtain ⟨bound, hx⟩ := hx
  obtain ⟨bound', hf⟩ := hf
  refine ⟨max bound bound', fun steps hsteps => ?_⟩
  rw [result_bind (hx steps ((Nat.le_max_left _ _).trans hsteps))]
  exact hf steps ((Nat.le_max_right _ _).trans hsteps)

end Traced.Reaches

/-! ### What keys mention -/

namespace PullKey

/-- What a mention of a name asks for. -/
inductive Wanted where
  /-- The value or values of the attribute. -/
  | held
  /-- The records of the related entities, with the keys to pull from them. -/
  | records (keys : List PullKey)

/-- The names that a key mentions for the entity itself, in order, with what it asks for. -/
def mentions : PullKey → List (String × Wanted)
  | .attr name => [(name, .held)]
  | .nested relations => relations.map fun r => (r.1, .records r.2)

/-- What the last mention of a name asks for. -/
def last? (name : String) (mentions : List (String × Wanted)) : Option Wanted := mentions.reverse.lookup name

theorem last?_append (name : String) (ms ms' : List (String × Wanted)) :
    last? name (ms ++ ms') = (last? name ms').or (last? name ms) := by
  rw [last?, List.reverse_append, List.lookup_append, last?, last?]

theorem last?_singleton (name other : String) (wanted : Wanted) :
    last? other [(name, wanted)] = if other = name then some wanted else none := by
  by_cases h : other = name <;> simp [last?, List.lookup_cons, h, beq_eq_false_iff_ne.2]

mutual

/-- The names that a key mentions, for the entity itself or for those related to it. -/
def names : PullKey → List String
  | .attr name => [name]
  | .nested relations => namesOfRelations relations

/-- The names that some keys mention. -/
def namesOfKeys : List PullKey → List String
  | [] => []
  | key :: keys => names key ++ namesOfKeys keys

/-- The names of some relations, and those that their keys mention. -/
def namesOfRelations : List (String × List PullKey) → List String
  | [] => []
  | (relation, keys) :: relations => relation :: namesOfKeys keys ++ namesOfRelations relations

end

/-! ### Keys that are read -/

mutual

/-- The relations of every nested key are in ascending order of their names. -/
def Ordered : PullKey → Prop
  | .attr _ => True
  | .nested relations => Fields.Ascending relations ∧ OrderedRelations relations

/-- The same of each of some keys. -/
def OrderedKeys : List PullKey → Prop
  | [] => True
  | key :: keys => Ordered key ∧ OrderedKeys keys

/-- The same of the keys of each relation. -/
def OrderedRelations : List (String × List PullKey) → Prop
  | [] => True
  | (_, keys) :: relations => OrderedKeys keys ∧ OrderedRelations relations

end

theorem orderedRelations_iff {relations : List (String × List PullKey)} :
    OrderedRelations relations ↔ ∀ r ∈ relations, OrderedKeys r.2 := by
  induction relations with
  | nil => simp [OrderedRelations]
  | cons r relations ih => rw [OrderedRelations, ih, List.forall_mem_cons]

mutual

theorem ordered_of_ofWritten? : ∀ {w : Json.Written} {key : PullKey}, ofWritten? w = some key → key.Ordered
  | .string _, _, h => by
    obtain ⟨s, -, rfl⟩ := Option.map_eq_some_iff.1 h
    trivial
  | .object members, _, h => by
    obtain ⟨relations, hrelations, rfl⟩ := Option.map_eq_some_iff.1 h
    have hordered := orderedRelations_iff.1 (ordered_of_relations? hrelations)
    exact ⟨Fields.ascending_ofList relations,
      orderedRelations_iff.2 fun r hr => hordered r (Fields.mem_of_mem_ofList hr)⟩
  | .null, _, h => by cases h
  | .bool _, _, h => by cases h
  | .number _, _, h => by cases h
  | .array _, _, h => by cases h

theorem ordered_of_keys? : ∀ {items : List Json.Written} {keys : List PullKey}, keys? items = some keys →
    OrderedKeys keys
  | [], _, h => by
    cases h
    trivial
  | item :: items, _, h => by
    obtain ⟨key, hkey, h⟩ := Option.bind_eq_some_iff.1 h
    obtain ⟨keys, hkeys, h⟩ := Option.bind_eq_some_iff.1 h
    cases h
    exact ⟨ordered_of_ofWritten? hkey, ordered_of_keys? hkeys⟩

theorem ordered_of_relations? : ∀ {members : List (List Json.Written.Piece × Json.Written)}
    {relations : List (String × List PullKey)}, relations? members = some relations → OrderedRelations relations
  | [], _, h => by
    cases h
    trivial
  | (pieces, .array items) :: members, _, h => by
    obtain ⟨name, -, h⟩ := Option.bind_eq_some_iff.1 h
    obtain ⟨keys, hkeys, h⟩ := Option.bind_eq_some_iff.1 h
    obtain ⟨relations, hrelations, h⟩ := Option.bind_eq_some_iff.1 h
    cases h
    exact ⟨ordered_of_keys? hkeys, ordered_of_relations? hrelations⟩
  | (_, .null) :: _, _, h => by cases h
  | (_, .bool _) :: _, _, h => by cases h
  | (_, .number _) :: _, _, h => by cases h
  | (_, .string _) :: _, _, h => by cases h
  | (_, .object _) :: _, _, h => by cases h

end

/-- The keys that a text says have their relations in order. -/
theorem ordered_of_listOfText? {text : String} {keys : List PullKey} (h : listOfText? text = .ok keys) :
    OrderedKeys keys := by
  unfold listOfText? at h
  split at h
  · rename_i keys' hkeys
    cases h
    obtain ⟨w, -, h⟩ := Option.bind_eq_some_iff.1 hkeys
    obtain ⟨v, -, h⟩ := Option.bind_eq_some_iff.1 h
    cases w with
    | array items => exact ordered_of_keys? h
    | _ => cases h
  · cases h

end PullKey

namespace Database

open PullKey (Wanted last? mentions)

variable {db : Database} {id : Term} {ids : List Term} {keys : List PullKey} {record record' record'' : Fields Json}
  {records : List (Fields Json)} {ms ms' : List (String × Wanted)} {name : String}

/-! ### Records by the facts -/

mutual

/-- The record of an entity: under each name what the last mention asks for, and no other names. -/
inductive IsRecord (db : Database) : Term → List PullKey → Fields Json → Prop
  | intro {id : Term} {keys : List PullKey} {record : Fields Json} : Fields.Ascending record →
      (∀ name, IsShown db id name (last? name (keys.flatMap mentions)) (Fields.get? name record)) →
      IsRecord db id keys record

/-- What a record shows under a name: nothing if the name is not mentioned, else what the facts hold for the attribute,
or the records of the values. -/
inductive IsShown (db : Database) : Term → String → Option Wanted → Option Json → Prop
  | nothing {id : Term} {name : String} : IsShown db id name none none
  | held {id : Term} {name : String} : IsShown db id name (some .held) (some (db.held id name))
  | records {id : Term} {name : String} {keys : List PullKey} {records : List (Fields Json)} :
      AreRecords db (db.store.values id name) keys records →
      IsShown db id name (some (.records keys)) (some (.array (records.map .object)))

/-- The records of some entities, one for each, in their order. -/
inductive AreRecords (db : Database) : List Term → List PullKey → List (Fields Json) → Prop
  | nil {keys : List PullKey} : AreRecords db [] keys []
  | cons {id : Term} {ids : List Term} {keys : List PullKey} {record : Fields Json} {records : List (Fields Json)} :
      IsRecord db id keys record → AreRecords db ids keys records → AreRecords db (id :: ids) keys (record :: records)

end

/-- **An entity has one record** for some keys. -/
theorem IsRecord.unique (h : db.IsRecord id keys record) :
    ∀ {record'}, db.IsRecord id keys record' → record = record' := by
  refine IsRecord.rec
    (motive_1 := fun id keys record _ => ∀ {record'}, db.IsRecord id keys record' → record = record')
    (motive_2 := fun id name wanted? shown? _ => ∀ {shown?'}, db.IsShown id name wanted? shown?' → shown? = shown?')
    (motive_3 := fun ids keys records _ => ∀ {records'}, db.AreRecords ids keys records' → records = records')
    ?intro ?nothing ?held ?records ?nil ?cons h
  case intro =>
    rintro id keys record hordered - ih record' ⟨hordered', hshown'⟩
    exact Fields.eq_of_get?_eq hordered hordered' fun name => ih name (hshown' name)
  case nothing => rintro id name _ ⟨⟩; rfl
  case held => rintro id name _ ⟨⟩; rfl
  case records =>
    rintro id name keys records - ih _ ⟨⟩
    rename_i hrecords'
    rw [ih hrecords']
  case nil => rintro keys _ ⟨⟩; rfl
  case cons =>
    rintro id ids keys record records - - ih ih' _ ⟨⟩
    rename_i hrecord' hrecords'
    rw [ih hrecord', ih' hrecords']

/-! ### Following mentions -/

/-- The second record is the first one after some mentions have been followed: it shows what the last mention of each
name asks for, and what it was under the names that are not mentioned. -/
structure Follows (db : Database) (id : Term) (ms : List (String × Wanted)) (record record' : Fields Json) : Prop where
  ascending : record.Ascending → record'.Ascending
  shown : ∀ name, last? name ms ≠ none → db.IsShown id name (last? name ms) (Fields.get? name record')
  kept : ∀ name, last? name ms = none → Fields.get? name record' = Fields.get? name record

theorem Follows.nil : db.Follows id [] record record := ⟨fun h => h, fun _ h => absurd rfl h, fun _ _ => rfl⟩

/-- Later mentions are followed after earlier ones. -/
theorem Follows.append (h : db.Follows id ms record record') (h' : db.Follows id ms' record' record'') :
    db.Follows id (ms ++ ms') record record'' := by
  refine ⟨fun hordered => h'.ascending (h.ascending hordered), fun name hname => ?_, fun name hname => ?_⟩
  · rw [PullKey.last?_append] at hname ⊢
    cases hlast : last? name ms' with
    | some wanted =>
      rw [Option.some_or, ← hlast]
      exact h'.shown name (hlast ▸ Option.some_ne_none _)
    | none =>
      rw [hlast, Option.none_or] at hname
      rw [Option.none_or, h'.kept name hlast]
      exact h.shown name hname
  · rw [PullKey.last?_append, Option.or_eq_none_iff] at hname
    rw [h'.kept name hname.1, h.kept name hname.2]

/-- A mention is followed by showing what it asks for. -/
theorem Follows.insert {wanted : Wanted} {value : Json} (h : db.IsShown id name (some wanted) (some value)) :
    db.Follows id [(name, wanted)] record (Fields.insert name value record) := by
  refine ⟨fun hordered => hordered.insert _ _, fun other hother => ?_, fun other hother => ?_⟩
  · rw [PullKey.last?_singleton] at hother ⊢
    obtain rfl : other = name := by_contra fun hne => hother (if_neg hne)
    rw [Fields.get?_insert, if_pos rfl, if_pos rfl]
    exact h
  · rw [PullKey.last?_singleton] at hother
    have hne : other ≠ name := fun heq => by simp [heq] at hother
    rw [Fields.get?_insert, if_neg hne]

/-- From nothing, following all mentions leads to the record. -/
theorem Follows.isRecord (h : db.Follows id (keys.flatMap mentions) [] record) : db.IsRecord id keys record := by
  refine .intro (h.ascending .nil) fun name => ?_
  by_cases hname : last? name (keys.flatMap mentions) = none
  · rw [hname, h.kept name hname]
    exact .nothing
  · exact h.shown name hname

/-! ### Pulling -/

/-- Records are pulled of all the entities if they are of each. -/
theorem exists_records (hkeys : ∀ {id : Term}, id.isGround = true → ∀ record, ∃ record',
      Traced.Reaches (fun steps => db.pullKeys steps id record keys) record' ∧
        db.Follows id (keys.flatMap mentions) record record')
    (hids : ∀ id ∈ ids, id.isGround = true) : ∃ records,
      Traced.Reaches (fun steps => ids.mapM fun id => db.pullKeys steps id [] keys) records ∧
        db.AreRecords ids keys records := by
  induction ids with
  | nil => exact ⟨[], .pure [], .nil⟩
  | cons id ids ih =>
    obtain ⟨hid, hids⟩ := List.forall_mem_cons.1 hids
    obtain ⟨record, hreach, hfollows⟩ := hkeys hid []
    obtain ⟨records, hreaches, hrecords⟩ := ih hids
    refine ⟨record :: records, ?_, .cons hfollows.isRecord hrecords⟩
    simp only [List.mapM_cons]
    exact .bind hreach (.bind hreaches (.pure _))

mutual

/-- What a key adds to a record follows its mentions. -/
theorem pullKey_follows (hst : db.store.Reachable) : ∀ {key : PullKey},
    (∀ name ∈ key.names, db.store.Underived (.str name)) → ∀ {id : Term}, id.isGround = true → ∀ record, ∃ record',
      Traced.Reaches (fun steps => db.pullKey steps id record key) record' ∧
        db.Follows id key.mentions record record'
  | .attr name, hkey, id, hid, record => by
    have hattr : db.store.Underived (.str name) := hkey name (by rw [PullKey.names]; exact List.mem_cons_self)
    refine ⟨Fields.insert name (db.held id name) record, ?_, .insert .held⟩
    simp only [pullKey]
    exact .bind (attributeValue_eq hst hattr hid) (.pure _)
  | .nested relations, hkey, id, hid, record => by
    simp only [pullKey]
    exact pullRelations_follows hst (by rwa [PullKey.names] at hkey) hid record

/-- The same of some keys, one after the other. -/
theorem pullKeys_follows (hst : db.store.Reachable) : ∀ {keys : List PullKey},
    (∀ name ∈ PullKey.namesOfKeys keys, db.store.Underived (.str name)) →
      ∀ {id : Term}, id.isGround = true → ∀ record, ∃ record',
      Traced.Reaches (fun steps => db.pullKeys steps id record keys) record' ∧
        db.Follows id (keys.flatMap mentions) record record'
  | [], _, id, _, record => by
    simp only [pullKeys]
    exact ⟨record, .pure record, .nil⟩
  | key :: keys, hkeys, id, hid, record => by
    rw [PullKey.namesOfKeys, List.forall_mem_append] at hkeys
    obtain ⟨record', hreach, hfollows⟩ := pullKey_follows hst hkeys.1 hid record
    obtain ⟨record'', hreach', hfollows'⟩ := pullKeys_follows hst hkeys.2 hid record'
    simp only [pullKeys]
    exact ⟨record'', .bind hreach hreach', hfollows.append hfollows'⟩

/-- The same of some relations; the records of the related entities are pulled before the next relation is looked at. -/
theorem pullRelations_follows (hst : db.store.Reachable) : ∀ {relations : List (String × List PullKey)},
    (∀ name ∈ PullKey.namesOfRelations relations, db.store.Underived (.str name)) →
    ∀ {id : Term}, id.isGround = true → ∀ record, ∃ record',
      Traced.Reaches (fun steps => db.pullRelations steps id record relations) record' ∧
        db.Follows id (relations.map fun r => (r.1, .records r.2)) record record'
  | [], _, id, _, record => by
    simp only [pullRelations]
    exact ⟨record, .pure record, .nil⟩
  | (relation, keys) :: relations, hrelations, id, hid, record => by
    rw [PullKey.namesOfRelations, List.forall_mem_append, List.forall_mem_cons] at hrelations
    obtain ⟨⟨hrelation, hkeys⟩, hrelations⟩ := hrelations
    have hvalues : ∀ t ∈ db.store.values id relation, t.isGround = true := fun _ => Store.isGround_of_mem_values
    obtain ⟨records, hreach, hrecords⟩ := exists_records (pullKeys_follows hst hkeys) hvalues
    obtain ⟨record', hreach', hfollows'⟩ :=
      pullRelations_follows hst hrelations hid (Fields.insert relation (.array (records.map .object)) record)
    refine ⟨record', ?_, .append (.insert (.records hrecords)) hfollows'⟩
    simp only [pullRelations]
    exact .bind (findAll_eq hst hrelation hid) (.bind hreach hreach')

end

/-- **A pull is a projection of the facts.** In every database that the operations lead to, whatever its schema and its
way to find candidates, for a ground entity and any keys: if every rule has another ground attribute in its head than
those that the keys mention at any depth, then the pull succeeds with enough steps, and what it gives is the one record
of the entity by the facts. So it has the names that the keys mention for the entity; the last mention of a name decides
whether it shows what the facts hold for the attribute or a record of each value, in their order. The keys count in
their order, and the relations of a key in theirs, which is the order of their names in keys that have been read. -/
theorem pull_projection :
    (∀ {db : Database}, db.Reachable → ∀ {id : Term} {keys : List PullKey}, id.isGround = true →
      (∀ name ∈ PullKey.namesOfKeys keys, db.store.Underived (.str name)) →
        ∃ record, (∀ record', db.IsRecord id keys record' ↔ record' = record) ∧
          ∃ bound, ∀ steps, bound ≤ steps → (db.pull steps id keys).result = .ok (.object record)) ∧
      ∀ {text : String} {keys : List PullKey}, PullKey.listOfText? text = .ok keys → PullKey.OrderedKeys keys := by
  refine ⟨fun {db} hdb {id keys} hid hkeys => ?_, PullKey.ordered_of_listOfText?⟩
  obtain ⟨record, hreach, hfollows⟩ := pullKeys_follows hdb.store hkeys hid []
  have hrecord : db.IsRecord id keys record := hfollows.isRecord
  have hpull : Traced.Reaches (fun steps => db.pull steps id keys) (.object record) := .bind hreach (.pure _)
  exact ⟨record, fun record' => ⟨fun h => h.unique hrecord, fun heq => heq ▸ hrecord⟩, hpull⟩

/-! ### An example -/

theorem isGround_elder : Triple.isGround ⟨.str "bob", .str "parent", .str "ann"⟩ = true := rfl

/-- The family, in which Bob is a child of Ann as well. -/
def loop : Database := { family with store := family.store.push (.fact _ isGround_elder) }

theorem reachable_loop : loop.Reachable := by
  have hfact : family.addFact ⟨.str "bob", .str "parent", .str "ann"⟩ = .ok loop := rfl
  exact .appends reachable_family (.fact hfact)

theorem underived_loop (h : name ≠ "ancestor") : loop.store.Underived (.str name) := by
  refine Store.Underived.push (fun r hr => ?_) _ _
  obtain rfl : r = .ancestor := by
    simpa [family, Store.family, Store.push, Store.addRule, Store.withReferences] using hr
  exact ⟨rfl, fun heq => h (Term.str.inj heq).symm⟩

/-- The parents, their parents, and of these the parent and the name. The first mention of the parents does not count. -/
def ancestry : List PullKey :=
  [.attr "parent", .nested [("parent", [.nested [("parent", [.attr "parent", .attr "name"])]])]]

/-- Where keys mention no other name, the record shows what the last mention asks for. -/
theorem isRecord_singleton {wanted : Wanted} {value : Json}
    (hlast : last? name (keys.flatMap mentions) = some wanted)
    (hother : ∀ other, other ≠ name → last? other (keys.flatMap mentions) = none)
    (hshown : db.IsShown id name (some wanted) (some value)) : db.IsRecord id keys [(name, value)] := by
  refine .intro (List.pairwise_singleton _ _) fun other => ?_
  rw [Fields.get?_cons]
  split
  · rename_i heq
    rwa [heq, hlast]
  · rename_i hne
    rw [hother other hne]
    exact .nothing

/-- By the facts, the parent of Ann is Bob, whose parent is Ann, whose parent is Bob; and she has no name. -/
theorem isRecord_ancestry : loop.IsRecord (.str "ann") ancestry [("parent", .array [.object [("parent", .array
    [.object [("name", .null), ("parent", .string "bob")]])]])] := by
  have hann : loop.IsRecord (.str "ann") [.attr "parent", .attr "name"]
      [("name", .null), ("parent", .string "bob")] := by
    refine .intro (by decide) fun name => ?_
    by_cases hname : name = "name"
    · rw [hname]
      exact .held
    · by_cases hparent : name = "parent"
      · rw [hparent]
        exact .held
      · simp [mentions, last?, List.lookup_cons, Fields.get?, beq_eq_false_iff_ne.2 hname,
          beq_eq_false_iff_ne.2 hparent, IsShown.nothing]
  have hbob : loop.IsRecord (.str "bob") [.nested [("parent", [.attr "parent", .attr "name"])]]
      [("parent", .array [.object [("name", .null), ("parent", .string "bob")]])] := by
    have hparents : loop.AreRecords (loop.store.values (.str "bob") "parent") [.attr "parent", .attr "name"]
        [[("name", .null), ("parent", .string "bob")]] := .cons hann .nil
    refine isRecord_singleton rfl (fun other hne => ?_) (.records hparents)
    simp [mentions, last?, List.lookup_cons, beq_eq_false_iff_ne.2 hne]
  have hparents : loop.AreRecords (loop.store.values (.str "ann") "parent")
      [.nested [("parent", [.attr "parent", .attr "name"])]]
      [[("parent", .array [.object [("name", .null), ("parent", .string "bob")]])]] := .cons hbob .nil
  refine isRecord_singleton rfl (fun other hne => ?_) (.records hparents)
  simp [ancestry, mentions, last?, List.lookup_cons, beq_eq_false_iff_ne.2 hne]

/-- Going round in a circle, the pull ends. -/
theorem pull_projection_ancestry : ∃ bound, ∀ steps, bound ≤ steps →
    (loop.pull steps (.str "ann") ancestry).result = .ok (.object [("parent", .array [.object [("parent", .array
      [.object [("name", .null), ("parent", .string "bob")]])]])]) := by
  have hkeys : ∀ name ∈ PullKey.namesOfKeys ancestry, loop.store.Underived (.str name) := by
    have hnames : ∀ name ∈ PullKey.namesOfKeys ancestry, name ≠ "ancestor" := by decide
    exact fun name hname => underived_loop (hnames name hname)
  have hann : Term.isGround (.str "ann") = true := rfl
  obtain ⟨record, honly, hpull⟩ := pull_projection.1 reachable_loop hann hkeys
  rwa [← (honly _).1 isRecord_ancestry] at hpull

end Database

end TripleStore
