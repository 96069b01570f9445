import TripleStore.Json.Reading
import TripleStore.Proofs.Fields

/-!
# JSON values in order

The members of an object are fields: they come in ascending order of their names, each name once. `Json.Ordered` says so
of a value and of everything in it. Whatever is read from a text is in order, even if the text repeats names or lists
them in another order (`Json.ordered_of_ofText?`).
-/

namespace TripleStore.Json

mutual

/-- The members of every object in a value are in ascending order of their names. -/
def Ordered : Json → Prop
  | .array items => OrderedAll items
  | .object members => Fields.Ascending members ∧ OrderedMembers members
  | .null => True
  | .bool _ => True
  | .number _ => True
  | .string _ => True

/-- The same of each of some values. -/
def OrderedAll : List Json → Prop
  | [] => True
  | item :: items => Ordered item ∧ OrderedAll items

/-- The same of the value of each member. -/
def OrderedMembers : List (String × Json) → Prop
  | [] => True
  | (_, value) :: members => Ordered value ∧ OrderedMembers members

end

theorem orderedMembers_iff {members : List (String × Json)} :
    OrderedMembers members ↔ ∀ m ∈ members, Ordered m.2 := by
  induction members with
  | nil => simp [OrderedMembers]
  | cons m members ih => rw [OrderedMembers, ih, List.forall_mem_cons]

/-- The members of an object are in order when their values are, whatever order they are given in. -/
theorem ordered_ofFields {members : List (String × Json)} (h : OrderedMembers members) :
    Ordered (ofFields members) := by
  rw [orderedMembers_iff] at h
  exact ⟨Fields.ascending_ofList members, orderedMembers_iff.2 fun m hm => h m (Fields.mem_of_mem_ofList hm)⟩

namespace Written

mutual

theorem ordered_of_json? : ∀ {room : Nat} {w : Written} {v : Json}, json? room w = some v → v.Ordered
  | _, .null, _, h => by
    cases h
    trivial
  | _, .bool _, _, h => by
    cases h
    trivial
  | _, .number _, _, h => by
    obtain ⟨n, -, rfl⟩ := Option.map_eq_some_iff.1 h
    trivial
  | _, .string _, _, h => by
    obtain ⟨s, -, rfl⟩ := Option.map_eq_some_iff.1 h
    trivial
  | _, .array items, _, h => by
    rw [json?] at h
    split at h
    · cases h
    · obtain ⟨vs, hvs, rfl⟩ := Option.map_eq_some_iff.1 h
      exact ordered_of_jsons? hvs
  | _, .object members, _, h => by
    rw [json?] at h
    split at h
    · cases h
    · obtain ⟨fields, hfields, rfl⟩ := Option.map_eq_some_iff.1 h
      exact ordered_ofFields (ordered_of_fields? hfields)

theorem ordered_of_jsons? : ∀ {room : Nat} {ws : List Written} {vs : List Json}, jsons? room ws = some vs →
    OrderedAll vs
  | _, [], _, h => by
    cases h
    trivial
  | _, w :: ws, _, h => by
    obtain ⟨v, hv, h⟩ := Option.bind_eq_some_iff.1 h
    obtain ⟨vs, hvs, h⟩ := Option.bind_eq_some_iff.1 h
    cases h
    exact ⟨ordered_of_json? hv, ordered_of_jsons? hvs⟩

theorem ordered_of_fields? : ∀ {room : Nat} {ms : List (List Piece × Written)} {members : List (String × Json)},
    fields? room ms = some members → OrderedMembers members
  | _, [], _, h => by
    cases h
    trivial
  | _, (pieces, w) :: ms, _, h => by
    obtain ⟨name, -, h⟩ := Option.bind_eq_some_iff.1 h
    obtain ⟨v, hv, h⟩ := Option.bind_eq_some_iff.1 h
    obtain ⟨members, hmembers, h⟩ := Option.bind_eq_some_iff.1 h
    cases h
    exact ⟨ordered_of_json? hv, ordered_of_fields? hmembers⟩

end

end Written

/-- **What is read from a text is in order.** -/
theorem ordered_of_ofText? {text : String} {v : Json} (h : ofText? text = some v) : v.Ordered := by
  obtain ⟨w, -, h⟩ := Option.bind_eq_some_iff.1 h
  exact Written.ordered_of_json? h

end TripleStore.Json
