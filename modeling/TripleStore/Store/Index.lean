import Std.Data.TreeMap.Basic
import TripleStore.Rule
import TripleStore.Store.Positions
import TripleStore.Term.Order

/-!
# The index of a store

The index finds the entries whose head can match a pattern from the ground positions of the pattern. It
keeps lists of positions, filled in the order of the entries: by ground entity, by ground attribute, and
the rest of each kind apart. Facts of reference attributes are also kept by attribute and value, so that a
join that runs from value to entity does not visit every fact of the attribute.
-/

namespace TripleStore

/-- What a store holds at one position. -/
inductive Entry where
  /-- A ground triple. -/
  | fact (triple : Triple) (ground : triple.isGround = true)
  /-- A rule. -/
  | rule (r : Rule)

/-- The triple of a fact, or the head of a rule. -/
def Entry.head : Entry → Triple
  | fact triple _ => triple
  | rule r => r.head

/-- True for facts. -/
def Entry.isFact : Entry → Bool
  | fact .. => true
  | rule _ => false

/-- Positions by key. -/
abbrev Buckets (κ : Type) (cmp : κ → κ → Ordering) := Std.TreeMap κ (Array Nat) cmp

namespace Buckets

variable {κ : Type} {cmp : κ → κ → Ordering}

/-- Appends a position to the bucket of a key. -/
def push (key : κ) (position : Nat) (buckets : Buckets κ cmp) : Buckets κ cmp :=
  buckets.alter key fun bucket? => some ((bucket?.getD #[]).push position)

/-- The positions in the bucket of a key. -/
def positions (key : κ) (buckets : Buckets κ cmp) : List Nat := (buckets.getD key #[]).toList

end Buckets

/-- Positions of entries by what their heads have in each place. -/
structure Index where
  /-- Entries with a ground entity. -/
  byEntity : Buckets Term Term.cmp := ∅
  /-- Entries with variables in the entity. -/
  openEntity : Array Nat := #[]
  /-- Entries with a ground attribute. -/
  byAttribute : Buckets Term Term.cmp := ∅
  /-- Entries with variables in the attribute. -/
  openAttribute : Array Nat := #[]
  /-- Rules with a ground attribute. -/
  rulesByAttribute : Buckets Term Term.cmp := ∅
  /-- Facts of reference attributes, by attribute and value. -/
  joins : Buckets (Term × Term) Term.cmpPair := ∅

namespace Index

/-- The index of no entries. -/
def empty : Index := {}

instance : Inhabited Index := ⟨empty⟩

/-- Files a position under the entity of a head. -/
def addEntity (position : Nat) (entity : Term) (index : Index) : Index :=
  if entity.isGround then { index with byEntity := Buckets.push entity position index.byEntity }
  else { index with openEntity := index.openEntity.push position }

/-- Files a position under the attribute of a head. -/
def addAttribute (position : Nat) (attr : Term) (index : Index) : Index :=
  if attr.isGround then
    { index with byAttribute := Buckets.push attr position index.byAttribute }
  else { index with openAttribute := index.openAttribute.push position }

/-- Files a rule under its attribute and a fact of a reference attribute under attribute and value. -/
def addJoin (references : List Term) (position : Nat) (entry : Entry) (index : Index) : Index :=
  match entry with
  | .rule r =>
    if r.head.attr.isGround then
      { index with rulesByAttribute := Buckets.push r.head.attr position index.rulesByAttribute }
    else index
  | .fact t _ =>
    if references.contains t.attr then
      { index with joins := Buckets.push (t.attr, t.value) position index.joins }
    else index

/-- Files an entry that stands at a position. -/
def add (references : List Term) (position : Nat) (entry : Entry) (index : Index) : Index :=
  index.addEntity position entry.head.entity
    |>.addAttribute position entry.head.attr
    |>.addJoin references position entry

/-- The index of entries that stand at the positions from zero upward. -/
def ofEntries (references : List Term) (entries : List Entry) : Index :=
  entries.zipIdx.foldl (fun index (entry, position) => index.add references position entry) empty

/-- Entries whose head can have the given ground entity. -/
def withEntity (index : Index) (entity : Term) : List Nat :=
  Positions.union (Buckets.positions entity index.byEntity) index.openEntity.toList

/-- Entries whose head can have the given ground attribute. -/
def withAttribute (index : Index) (attr : Term) : List Nat :=
  Positions.union (Buckets.positions attr index.byAttribute) index.openAttribute.toList

/-- Entries whose head can have the given reference attribute and, if they are facts, have the given
value. -/
def withReference (index : Index) (attr value : Term) : List Nat :=
  Positions.union
    (Positions.union (Buckets.positions attr index.rulesByAttribute) index.openAttribute.toList)
    (Buckets.positions (attr, value) index.joins)

end Index

end TripleStore
