import TripleStore.Database.Facts
import TripleStore.Proofs.Json.Terms
import TripleStore.Proofs.Lists

/-!
# What documents say

A document, a table and the attributes of an entity say something of entities: one thing in each of their cells
(`Cell.ofObjects`), an array standing for as many cells as it has items. This says what it is without the reader. The
reader accepts an input exactly when there is a fact for each cell, and what it returns are these facts, in the order of
the cells (`Facts.ofDocument_eq_ok_iff`, `Facts.ofRows_eq_ok_iff`, `Facts.ofEntity_eq_ok_iff`). Facts that have been
read have no variables (`Facts.Read.isGround`).
-/

namespace TripleStore

/-! ### Cells -/

/-- The values that a member of an object gives to the attribute it names: the items of an array, else the value. -/
def Json.elements : Json → List Json
  | .array items => items
  | value => [value]

/-- A place of a document at which something is said of an entity. -/
structure Cell where
  /-- The entity. -/
  entity : Term
  /-- The name of the attribute. -/
  attr : String
  /-- The value of the attribute. -/
  value : Json

namespace Cell

/-- The cells of an object, in the order of its members. -/
def ofMembers (id : Term) (members : Fields Json) : List Cell :=
  members.flatMap fun m => m.2.elements.map (Cell.mk id m.1)

/-- The cells of several objects, each about the entity it comes with. -/
def ofObjects (objects : List (Term × Fields Json)) : List Cell := objects.flatMap fun o => ofMembers o.1 o.2

/-- The fact is what the cell says: its value is the ground term that is written as the value in the cell. -/
def Says (c : Cell) (t : Triple) : Prop :=
  t.entity = c.entity ∧ t.attr = .str c.attr ∧ t.value.isGround = true ∧ t.value.toJson = c.value

end Cell

namespace Facts

/-- The entry of an entity document is an object under a name that is not empty. -/
def IsEntity (entry : String × Json) (object : Term × Fields Json) : Prop :=
  entry.1 ≠ "" ∧ object.1 = .str entry.1 ∧ entry.2 = .object object.2

/-- The row is an object with an identifier in the column; the other columns are about the entity it names. -/
def IsRow (column : String) (row : Json) (object : Term × Fields Json) : Prop :=
  ∃ columns, row = .object columns ∧ object.2 = columns.filter (fun m => m.1 ≠ column) ∧ object.1 ≠ .str "" ∧
    object.1.isGround = true ∧ Fields.get? column columns = some object.1.toJson

/-- The facts are those that an entity document says. -/
def OfDocument (data : Json) (facts : List Triple) : Prop :=
  ∃ entries objects, data = .object entries ∧ List.Forall₂ IsEntity entries objects ∧
    List.Forall₂ Cell.Says (Cell.ofObjects objects) facts

/-- The facts are those that the rows of a table say. -/
def OfTable (column : String) (rows : List Json) (facts : List Triple) : Prop :=
  ∃ objects, List.Forall₂ (IsRow column) rows objects ∧ List.Forall₂ Cell.Says (Cell.ofObjects objects) facts

/-- The facts are those that the attributes of an entity say. -/
def OfAttributes (id : Term) (attributes : Json) (facts : List Triple) : Prop :=
  ∃ members, attributes = .object members ∧ List.Forall₂ Cell.Says (Cell.ofMembers id members) facts

/-! ### The reader -/

variable {id : Term} {facts : List Triple} {column : String}

/-- The items of an array are read as values, and any other value as one. -/
theorem values_eq_ok_iff {value : Json} {terms : List Term} :
    values value = .ok terms ↔ (∀ t ∈ terms, t.isGround = true) ∧ Term.toJsons terms = value.elements := by
  have hone (v : Json) : (Term.ofJson v).map (fun t => [t]) = .ok terms
      ↔ (∀ t ∈ terms, t.isGround = true) ∧ Term.toJsons terms = [v] := by
    rw [← Term.ofJsons_eq_ok_iff, Term.ofJsons, Term.ofJsons]
    cases Term.ofJson v <;> simp [Except.map, bind, Except.bind, pure, Except.pure]
  cases value with
  | array items => exact Term.ofJsons_eq_ok_iff items terms
  | null => exact hone .null
  | bool b => exact hone (.bool b)
  | number n => exact hone (.number n)
  | string s => exact hone (.string s)
  | object members => exact hone (.object members)

/-- Facts with given values say what stands in cells with these values. -/
theorem says_map_iff {name : String} {vs : List Json} :
    List.Forall₂ Cell.Says (vs.map (Cell.mk id name)) facts ↔ ∃ terms : List Term,
      ((∀ t ∈ terms, t.isGround = true) ∧ Term.toJsons terms = vs) ∧
        terms.map (fun t => ⟨id, .str name, t⟩) = facts := by
  induction vs generalizing facts with
  | nil =>
    constructor
    · intro h
      rw [List.map_nil, List.forall₂_nil_left_iff] at h
      exact ⟨[], ⟨by simp, rfl⟩, h.symm⟩
    · rintro ⟨_ | ⟨t, terms⟩, ⟨-, h⟩, rfl⟩
      · exact .nil
      · cases h
  | cons v vs ih =>
    rw [List.map_cons, List.forall₂_cons_left_iff]
    constructor
    · rintro ⟨⟨entity, attr, value⟩, rest, ⟨hentity, hattr, hground, hvalue⟩, hrest, rfl⟩
      obtain ⟨terms, ⟨hterms, rfl⟩, rfl⟩ := ih.1 hrest
      obtain rfl : entity = id := hentity
      obtain rfl : attr = .str name := hattr
      obtain rfl : value.toJson = v := hvalue
      exact ⟨value :: terms, ⟨List.forall_mem_cons.2 ⟨hground, hterms⟩, rfl⟩, rfl⟩
    · rintro ⟨_ | ⟨t, terms⟩, ⟨hterms, h⟩, rfl⟩
      · cases h
      · cases h
        obtain ⟨ht, hterms⟩ := List.forall_mem_cons.1 hterms
        exact ⟨_, _, ⟨rfl, rfl, ht, rfl⟩, ih.2 ⟨terms, ⟨hterms, rfl⟩, rfl⟩, rfl⟩

/-- The members of an object are read as what its cells say. -/
theorem ofMembers_eq_ok_iff {members : List (String × Json)} :
    ofMembers id members = .ok facts ↔ List.Forall₂ Cell.Says (Cell.ofMembers id members) facts := by
  induction members generalizing facts with
  | nil =>
    rw [ofMembers, Cell.ofMembers, List.flatMap_nil, List.forall₂_nil_left_iff, Except.ok.injEq]
    exact eq_comm
  | cons m members ih =>
    obtain ⟨name, value⟩ := m
    have hcells : Cell.ofMembers id ((name, value) :: members)
        = value.elements.map (Cell.mk id name) ++ Cell.ofMembers id members := rfl
    rw [ofMembers, hcells, forall₂_append_left_iff]
    simp only [bind_eq_ok_iff, values_eq_ok_iff, ih, says_map_iff, pure, Except.pure, Except.ok.injEq]
    constructor
    · rintro ⟨terms, hterms, rest, hrest, rfl⟩
      exact ⟨_, rest, ⟨terms, hterms, rfl⟩, hrest, rfl⟩
    · rintro ⟨_, rest, ⟨terms, hterms, rfl⟩, hrest, rfl⟩
      exact ⟨terms, hterms, rest, hrest, rfl⟩

/-- **The attributes of an entity** are read exactly when there is a fact for each of their cells. -/
theorem ofEntity_eq_ok_iff {attributes : Json} :
    ofEntity id attributes = .ok facts ↔ OfAttributes id attributes facts := by
  cases attributes with
  | object members =>
    refine ofMembers_eq_ok_iff.trans ⟨fun h => ⟨members, rfl, h⟩, ?_⟩
    rintro ⟨_, ⟨⟩, h⟩
    exact h
  | _ => simp [ofEntity, Json.members?, OfAttributes]

/-- What several objects say is what the first says and then what the others say. -/
theorem says_ofObjects_cons_iff {α : Type} {R : α → Term × Fields Json → Prop} {a : α} {as : List α} :
    (∃ objects, List.Forall₂ R (a :: as) objects ∧ List.Forall₂ Cell.Says (Cell.ofObjects objects) facts) ↔
      ∃ object first, (R a object ∧ List.Forall₂ Cell.Says (Cell.ofMembers object.1 object.2) first) ∧ ∃ others,
        (∃ objects, List.Forall₂ R as objects ∧ List.Forall₂ Cell.Says (Cell.ofObjects objects) others) ∧
          first ++ others = facts := by
  constructor
  · rintro ⟨_ | ⟨object, objects⟩, hobjects, hfacts⟩
    · cases hobjects
    · obtain ⟨ha, has⟩ := List.forall₂_cons.1 hobjects
      obtain ⟨first, others, hfirst, hothers, rfl⟩ := forall₂_append_left_iff.1 hfacts
      exact ⟨object, first, ⟨ha, hfirst⟩, others, ⟨objects, has, hothers⟩, rfl⟩
  · rintro ⟨object, first, ⟨ha, hfirst⟩, others, ⟨objects, has, hothers⟩, rfl⟩
    exact ⟨object :: objects, .cons ha has, List.rel_append hfirst hothers⟩

theorem entityOfKey_eq_ok_iff {key : String} : entityOfKey key = .ok id ↔ key ≠ "" ∧ id = .str key := by
  unfold entityOfKey
  split
  · rename_i h
    simp [h]
  · rename_i h
    rw [Except.ok.injEq, and_iff_right h]
    exact eq_comm

theorem ofEntities_eq_ok_iff {entries : List (String × Json)} : ofEntities entries = .ok facts ↔
    ∃ objects, List.Forall₂ IsEntity entries objects ∧ List.Forall₂ Cell.Says (Cell.ofObjects objects) facts := by
  induction entries generalizing facts with
  | nil => simp [ofEntities, Cell.ofObjects]
  | cons entry entries ih =>
    obtain ⟨key, body⟩ := entry
    rw [ofEntities, says_ofObjects_cons_iff]
    simp only [bind_eq_ok_iff, entityOfKey_eq_ok_iff, ofEntity_eq_ok_iff, ih, pure, Except.pure, Except.ok.injEq]
    constructor
    · rintro ⟨id, ⟨hkey, rfl⟩, first, ⟨members, rfl, hfirst⟩, h⟩
      exact ⟨⟨.str key, members⟩, first, ⟨⟨hkey, rfl, rfl⟩, hfirst⟩, h⟩
    · rintro ⟨⟨id, members⟩, first, ⟨⟨hkey, hid, hbody⟩, hfirst⟩, h⟩
      exact ⟨id, ⟨hkey, hid⟩, first, ⟨members, hbody, hfirst⟩, h⟩

/-- **An entity document** is read exactly when there is a fact for each of its cells. -/
theorem ofDocument_eq_ok_iff {data : Json} : ofDocument data = .ok facts ↔ OfDocument data facts := by
  cases data with
  | object entries =>
    refine ofEntities_eq_ok_iff.trans ⟨fun ⟨objects, h⟩ => ⟨entries, objects, rfl, h⟩, ?_⟩
    rintro ⟨_, objects, ⟨⟩, h⟩
    exact ⟨objects, h⟩
  | _ => simp [ofDocument, Json.members?, OfDocument]

/-- The identifier of a row is what the column holds, and neither nothing nor an empty text. -/
theorem rowId_eq_ok_iff {row : Nat} {value? : Option Json} :
    rowId row column value? = .ok id ↔ id ≠ .str "" ∧ id.isGround = true ∧ value? = some id.toJson := by
  have hother (value : Json) (hvalue : value ≠ .string "") :
      Term.ofJson value = .ok id ↔ id ≠ .str "" ∧ id.isGround = true ∧ some value = some id.toJson := by
    rw [Term.ofJson_eq_ok_iff, Option.some.injEq]
    constructor
    · rintro ⟨hground, rfl⟩
      exact ⟨fun hid => hvalue (by rw [hid, Term.toJson]), hground, rfl⟩
    · rintro ⟨-, hground, rfl⟩
      exact ⟨hground, rfl⟩
  cases value? with
  | none => simp [rowId]
  | some value =>
    cases value with
    | null => cases id <;> simp [rowId, Term.toJson]
    | string s =>
      rw [rowId, entityOfKey_eq_ok_iff, Option.some.injEq, eq_comm (b := id.toJson), ← Term.ofJson_eq_ok_iff,
        Term.ofJson, Except.ok.injEq, eq_comm (b := id)]
      constructor
      · rintro ⟨hs, rfl⟩
        exact ⟨by simpa using hs, rfl⟩
      · rintro ⟨hid, rfl⟩
        exact ⟨by simpa using hid, rfl⟩
    | bool b => exact hother (.bool b) (by simp)
    | number n => exact hother (.number n) (by simp)
    | array items => exact hother (.array items) (by simp)
    | object members => exact hother (.object members) (by simp)

theorem ofRow_eq_ok_iff {row : Nat} {value : Json} : ofRow column row value = .ok facts ↔
    ∃ object, IsRow column value object ∧ List.Forall₂ Cell.Says (Cell.ofMembers object.1 object.2) facts := by
  cases value with
  | object columns =>
    simp only [ofRow, Json.members?, bind_eq_ok_iff, rowId_eq_ok_iff, ofMembers_eq_ok_iff]
    constructor
    · rintro ⟨id, hid, hfacts⟩
      exact ⟨⟨id, Fields.erase column columns⟩, ⟨columns, rfl, rfl, hid⟩, hfacts⟩
    · rintro ⟨⟨id, members⟩, ⟨_, ⟨⟩, rfl, hid⟩, hfacts⟩
      exact ⟨id, hid, hfacts⟩
  | _ => simp [ofRow, Json.members?, IsRow]

theorem ofRowsFrom_eq_ok_iff {row : Nat} {rows : List Json} :
    ofRowsFrom column row rows = .ok facts ↔ OfTable column rows facts := by
  unfold OfTable
  induction rows generalizing row facts with
  | nil => simp [ofRowsFrom, Cell.ofObjects]
  | cons value rows ih =>
    rw [ofRowsFrom, says_ofObjects_cons_iff]
    simp only [bind_eq_ok_iff, ofRow_eq_ok_iff, ih, pure, Except.pure, Except.ok.injEq]
    constructor
    · rintro ⟨first, ⟨object, h⟩, hrest⟩
      exact ⟨object, first, h, hrest⟩
    · rintro ⟨object, first, h, hrest⟩
      exact ⟨first, ⟨object, h⟩, hrest⟩

/-- **A table** is read exactly when there is a fact for each of its cells. -/
theorem ofRows_eq_ok_iff {rows : List Json} : ofRows column rows = .ok facts ↔ OfTable column rows facts :=
  ofRowsFrom_eq_ok_iff

/-! ### Facts that have been read -/

/-- Facts that the reader returns. -/
inductive Read : List Triple → Prop
  | document {data : Json} {facts : List Triple} : ofDocument data = .ok facts → Read facts
  | table {column : String} {rows : List Json} {facts : List Triple} : ofRows column rows = .ok facts → Read facts
  | attributes {id : Term} {attributes : Json} {facts : List Triple} :
      id.isGround = true → ofEntity id attributes = .ok facts → Read facts

/-- What the cells of an object say of a ground term is ground. -/
theorem isGround_of_says_ofMembers (hid : id.isGround = true) {members : Fields Json}
    (h : List.Forall₂ Cell.Says (Cell.ofMembers id members) facts) : ∀ t ∈ facts, t.isGround = true := by
  have hentity : ∀ c ∈ Cell.ofMembers id members, c.entity = id := by
    simp only [Cell.ofMembers, List.mem_flatMap, List.mem_map]
    rintro _ ⟨m, -, v, -, rfl⟩
    rfl
  intro t ht
  obtain ⟨c, hc, heq, hattr, hvalue, -⟩ := exists_mem_of_forall₂_right h ht
  have hname : (Term.str c.attr).isGround = true := rfl
  simp [Triple.isGround, Triple.toList, heq, hattr, hvalue, hentity c hc, hid, hname]

theorem isGround_of_says_ofObjects {objects : List (Term × Fields Json)}
    (hobjects : ∀ object ∈ objects, object.1.isGround = true)
    (h : List.Forall₂ Cell.Says (Cell.ofObjects objects) facts) : ∀ t ∈ facts, t.isGround = true := by
  induction objects generalizing facts with
  | nil =>
    rw [Cell.ofObjects, List.flatMap_nil, List.forall₂_nil_left_iff] at h
    simp [h]
  | cons object objects ih =>
    obtain ⟨hfirst, hothers⟩ := List.forall_mem_cons.1 hobjects
    obtain ⟨first, others, hf, ho, rfl⟩ := forall₂_append_left_iff.1 h
    exact List.forall_mem_append.2 ⟨isGround_of_says_ofMembers hfirst hf, ih hothers ho⟩

/-- **Facts that have been read have no variables.** -/
theorem Read.isGround (h : Read facts) : ∀ t ∈ facts, t.isGround = true := by
  cases h with
  | document h =>
    obtain ⟨entries, objects, -, hobjects, hsays⟩ := ofDocument_eq_ok_iff.1 h
    refine isGround_of_says_ofObjects (fun object hobject => ?_) hsays
    obtain ⟨entry, -, -, hid, -⟩ := exists_mem_of_forall₂_right hobjects hobject
    rw [hid]
    rfl
  | table h =>
    obtain ⟨objects, hobjects, hsays⟩ := ofRows_eq_ok_iff.1 h
    refine isGround_of_says_ofObjects (fun object hobject => ?_) hsays
    obtain ⟨row, -, columns, -, -, -, hid, -⟩ := exists_mem_of_forall₂_right hobjects hobject
    exact hid
  | attributes hid h =>
    obtain ⟨members, -, hsays⟩ := ofEntity_eq_ok_iff.1 h
    exact isGround_of_says_ofMembers hid hsays

end Facts

end TripleStore
