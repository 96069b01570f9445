import TripleStore.Store.Index

/-!
# Stores

A store is a sequence of facts and rules with an index over them. Entries are only ever appended. A
pattern is answered from candidates: the positions of all entries, or those that the index does not rule
out, in ascending order either way.
-/

namespace TripleStore

/-- How the candidates of a pattern are found. -/
inductive Retrieval where
  /-- Through the index. -/
  | indexed
  /-- Every entry is a candidate. -/
  | fullScan
  deriving DecidableEq, Inhabited

/-- Facts and rules in the order in which they were added. -/
structure Store where
  /-- The entries by position. -/
  entries : Array Entry := #[]
  /-- The attributes whose values are entities. -/
  references : List Term := []
  /-- The index over the entries. -/
  index : Index := .empty

namespace Store

/-- The store without entries. -/
def empty : Store := {}

instance : Inhabited Store := ⟨empty⟩

/-- The store without entries, for the given reference attributes. -/
def withReferences (references : List Term) : Store := { references := references }

/-- Replaces the reference attributes and indexes every entry anew. -/
def setReferences (references : List Term) (st : Store) : Store :=
  { st with references := references, index := .ofEntries references st.entries.toList }

/-- The number of entries. -/
def size (st : Store) : Nat := st.entries.size

/-- Appends an entry. -/
def push (entry : Entry) (st : Store) : Store :=
  { st with
    index := st.index.add st.references st.size entry
    entries := st.entries.push entry }

/-- Appends a fact, which has to be ground. -/
def addFact (st : Store) (t : Triple) : Except Invalid Store :=
  match h : t.openPosition? with
  | some position => .error (.factNotGround t position)
  | none => .ok (st.push (.fact t (Triple.openPosition?_eq_none_iff.1 h)))

/-- Appends a rule. -/
def addRule (st : Store) (r : Rule) : Store := st.push (.rule r)

/-- The entry at a position. -/
def get? (st : Store) (position : Nat) : Option Entry := st.entries[position]?

/-- Appending adds one entry. -/
@[simp] theorem size_push (entry : Entry) (st : Store) : (st.push entry).size = st.size + 1 := by
  simp [push, size]

/-- Appending puts an entry at the end and leaves the others where they are. -/
theorem get?_push (entry : Entry) (st : Store) (position : Nat) :
    (st.push entry).get? position = if position = st.size then some entry else st.get? position :=
  Array.getElem?_push

/-- The number of facts. -/
def factCount (st : Store) : Nat := st.entries.toList.countP Entry.isFact

/-- The number of rules. -/
def ruleCount (st : Store) : Nat := st.size - st.factCount

/-- True when some entry has the given entity. -/
def hasEntity (st : Store) (entity : Term) : Bool := st.index.byEntity.contains entity

/-- The ground terms among some terms, each once, in order of first appearance. -/
def distinctGround (terms : List Term) : List Term := (terms.filter Term.isGround).eraseDups

/-- The ground entities, in order of first appearance. -/
def entities (st : Store) : List Term :=
  distinctGround (st.entries.toList.map fun entry => entry.head.entity)

/-- The ground attributes, in order of first appearance. -/
def attributes (st : Store) : List Term :=
  distinctGround (st.entries.toList.map fun entry => entry.head.attr)

/-- The positions of all entries. -/
def positions (st : Store) : List Nat := List.range st.size

/-- The positions of entries that the index does not rule out for a pattern whose variables have been
replaced by their values. -/
def indexed (st : Store) (goal : Triple) : List Nat :=
  match goal.entity.isGround, goal.attr.isGround with
  | true, true => Positions.intersect (st.index.withEntity goal.entity) (st.index.withAttribute goal.attr)
  | true, false => st.index.withEntity goal.entity
  | false, true =>
    if goal.value.isGround && st.references.contains goal.attr then
      st.index.withReference goal.attr goal.value
    else st.index.withAttribute goal.attr
  | false, false => st.positions

/-- The positions of the entries to be tried for a pattern, in ascending order. -/
def candidates (st : Store) (mode : Retrieval) (s : Bindings) (goal : Triple) : List Nat :=
  match mode with
  | .fullScan => st.positions
  | .indexed => st.indexed (goal.map s.reify)

end Store

end TripleStore
