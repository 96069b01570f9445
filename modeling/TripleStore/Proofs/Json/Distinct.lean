import Mathlib.Data.List.Nodup
import TripleStore.Json.Reading
import TripleStore.Proofs.Fields
import TripleStore.Proofs.Lists

/-!
# Texts that repeat no name

What a written value is read as depends on its kind (`Json.Written.Denotes`), and there being room for deeper nesting
does not change it (`Json.Written.json?_mono`). Where no object of a text repeats a name (`Json.Written.Distinct`), the
members of its value have different names too (`Json.Written.nodup_of_fields?`).
-/

namespace TripleStore.Json.Written

mutual

/-- No object in a written value has two members of one name. -/
def Distinct : Written → Prop
  | .array items => DistinctAll items
  | .object members => (members.map fun m => text? m.1).Nodup ∧ DistinctMembers members
  | .null => True
  | .bool _ => True
  | .number _ => True
  | .string _ => True

/-- The same of each of some values. -/
def DistinctAll : List Written → Prop
  | [] => True
  | item :: items => Distinct item ∧ DistinctAll items

/-- The same of the value of each member. -/
def DistinctMembers : List (List Piece × Written) → Prop
  | [] => True
  | (_, value) :: members => Distinct value ∧ DistinctMembers members

end

theorem distinctAll_iff {items : List Written} : DistinctAll items ↔ ∀ item ∈ items, item.Distinct := by
  induction items with
  | nil => simp [DistinctAll]
  | cons item items ih => rw [DistinctAll, ih, List.forall_mem_cons]

theorem distinctMembers_iff {members : List (List Piece × Written)} :
    DistinctMembers members ↔ ∀ m ∈ members, m.2.Distinct := by
  induction members with
  | nil => simp [DistinctMembers]
  | cons m members ih => rw [DistinctMembers, ih, List.forall_mem_cons]

/-! ### Values piece by piece -/

variable {room : Nat} {w : Written} {ws : List Written} {v : Json} {vs : List Json}
  {members : List (List Piece × Written)} {fields : List (String × Json)}

theorem jsons?_eq_some_iff : jsons? room ws = some vs ↔ List.Forall₂ (fun w v => json? room w = some v) ws vs := by
  induction ws generalizing vs with
  | nil => simp [jsons?, eq_comm]
  | cons w ws ih =>
    rw [jsons?, List.forall₂_cons_left_iff]
    simp [Option.bind_eq_some_iff, ih, eq_comm (b := vs)]

theorem fields?_eq_some_iff :
    fields? room members = some fields ↔
      List.Forall₂ (fun m f => text? m.1 = some f.1 ∧ json? room m.2 = some f.2) members fields := by
  induction members generalizing fields with
  | nil => simp [fields?, eq_comm]
  | cons m members ih =>
    obtain ⟨pieces, w⟩ := m
    rw [fields?, List.forall₂_cons_left_iff]
    simp [Option.bind_eq_some_iff, ih, eq_comm (b := fields), and_assoc]

/-- The value of a written value, by the kind of value that it is. -/
inductive Denotes (room : Nat) : Written → Json → Prop
  | null : Denotes room .null .null
  | bool (b : Bool) : Denotes room (.bool b) (.bool b)
  | number {n : Written.Number} {x : Json.Number} : Number.ofWritten? n = some x → Denotes room (.number n) (.number x)
  | string {pieces : List Piece} {s : String} : text? pieces = some s → Denotes room (.string pieces) (.string s)
  | array {ws : List Written} {vs : List Json} : 0 < room → jsons? (room - 1) ws = some vs →
      Denotes room (.array ws) (.array vs)
  | object {members : List (List Piece × Written)} {fields : List (String × Json)} : 0 < room →
      fields? (room - 1) members = some fields → Denotes room (.object members) (.object (Fields.ofList fields))

theorem denotes_iff : Denotes room w v ↔ json? room w = some v := by
  constructor
  · intro h
    cases h with
    | null => rfl
    | bool b => rfl
    | number hn => rw [json?, hn, Option.map_some]
    | string hs => rw [json?, hs, Option.map_some]
    | array hroom hvs => rw [json?, if_neg hroom.ne', hvs, Option.map_some]
    | object hroom hfields => rw [json?, if_neg hroom.ne', hfields, Option.map_some, ofFields]
  · intro h
    cases w with
    | null =>
      cases h
      exact .null
    | bool b =>
      cases h
      exact .bool b
    | number n =>
      obtain ⟨x, hn, rfl⟩ := Option.map_eq_some_iff.1 h
      exact .number hn
    | string pieces =>
      obtain ⟨s, hs, rfl⟩ := Option.map_eq_some_iff.1 h
      exact .string hs
    | array ws =>
      rw [json?] at h
      split at h
      · cases h
      · obtain ⟨vs, hvs, rfl⟩ := Option.map_eq_some_iff.1 h
        exact .array (Nat.pos_of_ne_zero ‹_›) hvs
    | object members =>
      rw [json?] at h
      split at h
      · cases h
      · obtain ⟨fields, hfields, rfl⟩ := Option.map_eq_some_iff.1 h
        exact .object (Nat.pos_of_ne_zero ‹_›) hfields

mutual

/-- A value is still read if there is room for deeper nesting. -/
theorem json?_mono : ∀ {room room' : Nat} {w : Written} {v : Json}, room ≤ room' → json? room w = some v →
    json? room' w = some v
  | _, _, .null, _, _, h => h
  | _, _, .bool _, _, _, h => h
  | _, _, .number _, _, _, h => h
  | _, _, .string _, _, _, h => h
  | _, _, .array ws, _, hle, h => by
    cases denotes_iff.2 h with
    | array hroom hvs =>
      exact denotes_iff.1 (.array (hroom.trans_le hle) (jsons?_mono (Nat.sub_le_sub_right hle 1) hvs))
  | _, _, .object ms, _, hle, h => by
    cases denotes_iff.2 h with
    | object hroom hfields =>
      exact denotes_iff.1 (.object (hroom.trans_le hle) (fields?_mono (Nat.sub_le_sub_right hle 1) hfields))

theorem jsons?_mono : ∀ {room room' : Nat} {ws : List Written} {vs : List Json}, room ≤ room' →
    jsons? room ws = some vs → jsons? room' ws = some vs
  | _, _, [], _, _, h => h
  | _, _, w :: ws, _, hle, h => by
    obtain ⟨v, hv, h⟩ := Option.bind_eq_some_iff.1 h
    obtain ⟨vs, hvs, h⟩ := Option.bind_eq_some_iff.1 h
    rw [jsons?, json?_mono hle hv, jsons?_mono hle hvs]
    exact h

theorem fields?_mono : ∀ {room room' : Nat} {ms : List (List Piece × Written)} {fields : List (String × Json)},
    room ≤ room' → fields? room ms = some fields → fields? room' ms = some fields
  | _, _, [], _, _, h => h
  | _, _, (pieces, w) :: ms, _, hle, h => by
    obtain ⟨name, hname, h⟩ := Option.bind_eq_some_iff.1 h
    obtain ⟨v, hv, h⟩ := Option.bind_eq_some_iff.1 h
    obtain ⟨fields, hfields, h⟩ := Option.bind_eq_some_iff.1 h
    rw [fields?, hname, json?_mono hle hv, fields?_mono hle hfields]
    exact h

end

/-! ### Members -/

/-- Names that are not repeated in the text are different names. -/
theorem nodup_of_fields? (hnames : (members.map fun m => text? m.1).Nodup) (h : fields? room members = some fields) :
    (fields.map Prod.fst).Nodup := by
  have hforall := fields?_eq_some_iff.1 h
  have heq : (members.map fun m => text? m.1) = (fields.map Prod.fst).map some := by
    clear h hnames
    induction hforall with
    | nil => rfl
    | cons hm _ ih => rw [List.map_cons, hm.1, ih, List.map_cons, List.map_cons]
  rw [heq] at hnames
  exact List.Nodup.of_map some hnames

end TripleStore.Json.Written
