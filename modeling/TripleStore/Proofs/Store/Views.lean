import TripleStore.Proofs.Lists
import TripleStore.Proofs.Store.Index

/-!
# Views of a store

Whether a store has an entity is looked up in its index, while its entities and attributes are listed by going through
its entries (`FirstAppearances`). After any calls (`Store.Call`), those that are refused included, the two agree
(**`Store.views_agree`**).
-/

namespace TripleStore

open Store

/-! ### First appearances -/

/-- The terms are the ground ones among what entries have in a place: each once, in the order of the first entries that
have them. -/
structure FirstAppearances (place : Entry → Term) (entries : List Entry) (terms : List Term) : Prop where
  mem : ∀ t, t ∈ terms ↔ t.isGround = true ∧ ∃ e ∈ entries, place e = t
  nodup : terms.Nodup
  ordered : terms.Pairwise fun t t' =>
    entries.findIdx (fun e => place e == t) < entries.findIdx (fun e => place e == t')

/-- **Going through the entries gives first appearances.** -/
theorem firstAppearances_distinctGround (place : Entry → Term) (entries : List Entry) :
    FirstAppearances place entries (distinctGround (entries.map place)) := by
  have hordered : (distinctGround (entries.map place)).Pairwise fun t t' =>
      entries.findIdx (fun e => place e == t) < entries.findIdx (fun e => place e == t') := by
    rw [distinctGround, eraseDups_filter, List.map_eq_flatMap]
    refine ((pairwise_eraseDups_flatMap (f := fun e => [place e]) (by simp) entries).filter _).imp fun h => ?_
    simpa [eq_comm, Bool.beq_eq_decide_eq] using h
  refine ⟨fun t => ?_, hordered.imp fun hlt heq => ?_, hordered⟩
  · rw [distinctGround, List.mem_eraseDups, List.mem_filter, List.mem_map, and_comm]
  · rw [heq] at hlt
    exact lt_irrefl _ hlt

namespace Store

theorem factCount_le (st : Store) : st.factCount ≤ st.size := List.countP_le_length

/-- What is not a fact is a rule. -/
theorem ruleCount_eq (st : Store) : st.ruleCount = st.entries.toList.countP fun e => !e.isFact := by
  have hcount := List.length_eq_countP_add_countP Entry.isFact (l := st.entries.toList)
  rw [Array.length_toList] at hcount
  rw [ruleCount, factCount, size]
  simp only [Bool.not_eq_true, Bool.decide_eq_false] at hcount
  omega

/-! ### Calls -/

/-- A call that may change a store. -/
inductive Call where
  /-- Replace the reference attributes. -/
  | setReferences (references : List Term)
  /-- Append a fact. -/
  | addFact (t : Triple)
  /-- Append a rule. -/
  | addRule (r : Rule)

/-- The store after a call, whether it succeeds or is refused. -/
def apply (st : Store) : Call → Store
  | .setReferences references => st.setReferences references
  | .addFact t =>
    match st.addFact t with
    | .ok st' => st'
    | .error _ => st
  | .addRule r => st.addRule r

/-- The store after some calls on one without entries. -/
def ofCalls (references : List Term) (calls : List Call) : Store := calls.foldl apply (.withReferences references)

theorem Reachable.apply {st : Store} (h : st.Reachable) (call : Call) : (st.apply call).Reachable := by
  cases call with
  | setReferences references => exact .setReferences references h
  | addRule r => exact .addRule r h
  | addFact t =>
    rw [Store.apply]
    split
    · exact .addFact h ‹_›
    · exact h

theorem reachable_ofCalls (references : List Term) (calls : List Call) : (ofCalls references calls).Reachable := by
  induction calls using List.reverseRecOn with
  | nil => exact .withReferences references
  | append_singleton calls call ih =>
    rw [ofCalls, List.foldl_append]
    exact ih.apply call

/-- **The views of a store agree.** After any calls, those that are refused included, the entities that a store has are
those that it lists: the ground terms that are the entity of a fact or of the head of a rule. Entities and attributes
are listed without repetition, in the order of first appearance among the entries, and each entry counts as a fact or as
a rule. -/
theorem views_agree (references : List Term) (calls : List Call) :
    (∀ t, (ofCalls references calls).hasEntity t = true ↔ t ∈ (ofCalls references calls).entities) ∧
      FirstAppearances (fun e => e.head.entity) (ofCalls references calls).entries.toList
        (ofCalls references calls).entities ∧
      FirstAppearances (fun e => e.head.attr) (ofCalls references calls).entries.toList
        (ofCalls references calls).attributes ∧
      (ofCalls references calls).ruleCount = (ofCalls references calls).entries.toList.countP (fun e => !e.isFact) ∧
      (ofCalls references calls).factCount + (ofCalls references calls).ruleCount
        = (ofCalls references calls).size := by
  have hentities := firstAppearances_distinctGround (fun e => e.head.entity) (ofCalls references calls).entries.toList
  refine ⟨fun t => ?_, hentities, firstAppearances_distinctGround _ _, ruleCount_eq _,
    Nat.add_sub_cancel' (factCount_le _)⟩
  rw [(reachable_ofCalls references calls).hasEntity_iff, entities, hentities.mem]
  simp only [Array.mem_toList_iff]

/-- The fact about a variable is refused, and the head of the rule is about no entity in particular. -/
example : (ofCalls [] [.addFact ⟨.str "ann", .str "parent", .str "bob"⟩, .addFact ⟨.var 0, .str "parent", .str "bob"⟩,
    .setReferences [.str "parent"], .addRule .ancestor]).entities = [.str "ann"] := by decide

end Store

end TripleStore
