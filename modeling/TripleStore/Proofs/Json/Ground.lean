import TripleStore.Json.Number
import TripleStore.Proofs.Json.Patterns

/-!
# Values that have a term form

A value has a term form unless a null, an object or a number that is not a 64-bit integer is in it (`Json.Refused`),
however deep it is nested in arrays; what comes first in the order of reading is the cause (`Term.ofJson_eq_error_iff`).
Of the numbers of a text, those are 64-bit integers that are spelled by their digits (`Json.Written.Number.Spells`),
with nothing behind them and a minus sign only before digits that are not all zero
(`Json.Number.ofWritten?_eq_integer_iff`). So ground terms and the values that have a term form correspond one to one
(**`Term.ofJson_bijective`**).

A value in which no text begins with a question mark means the same in a pattern as in data
(`Term.ofPattern_eq_ofJson`).
-/

namespace TripleStore

/-! ### Values without a term form -/

namespace Json

/-- The value has no term form, for the given cause. -/
inductive Refused : Json → Invalid → Prop
  /-- A null has none. -/
  | null : Refused .null .nullTerm
  /-- A number has none unless it is an integer of 64 bits. -/
  | number {n : Json.Number} : (∀ i, n = .integer i → i < Int64.minValue.toInt ∨ Int64.maxValue.toInt < i) →
      Refused (.number n) (.numberTerm n)
  /-- An object has none. -/
  | object (members : List (String × Json)) : Refused (.object members) (.objectTerm (.object members))

/-- Why a value that is not an array has no term form, if it has none. -/
def termFault? : Json → Option Invalid
  | .null => some .nullTerm
  | .number n => if n.int64?.isSome then none else some (.numberTerm n)
  | .object members => some (.objectTerm (.object members))
  | .string _ => none
  | .bool _ => none
  | .array _ => none

theorem Number.int64?_eq_none_iff {n : Json.Number} :
    n.int64? = none ↔ ∀ i, n = .integer i → i < Int64.minValue.toInt ∨ Int64.maxValue.toInt < i := by
  cases n with
  | decimal x => simp [int64?]
  | integer i =>
    simp only [int64?, integer.injEq, forall_eq']
    split
    · exact iff_of_false (Option.some_ne_none _) (by omega)
    · exact iff_of_true rfl (by omega)

theorem termFault?_eq_some_iff {v : Json} {cause : Invalid} : v.termFault? = some cause ↔ v.Refused cause := by
  constructor
  · intro h
    cases v with
    | null =>
      cases h
      exact .null
    | number n =>
      rw [termFault?] at h
      split at h
      · cases h
      · rename_i hn
        cases h
        exact .number (Number.int64?_eq_none_iff.1 (by simpa using hn))
    | object members =>
      cases h
      exact .object members
    | _ => cases h
  · intro h
    cases h with
    | null => rfl
    | number hn => rw [termFault?, Number.int64?_eq_none_iff.2 hn, if_neg (by simp)]
    | object members => rfl

end Json

namespace Term

open Json

mutual

/-- **A value has no term form because of the first of its leaves** that has none. -/
theorem ofJson_eq_error_iff : ∀ (v : Json) (cause : Invalid),
    ofJson v = .error cause ↔ v.leaves.findSome? termFault? = some cause
  | .null, cause => by simp [ofJson, leaves, termFault?]
  | .bool b, cause => by simp [ofJson, leaves, termFault?]
  | .string s, cause => by simp [ofJson, leaves, termFault?]
  | .object members, cause => by simp [ofJson, leaves, termFault?]
  | .number n, cause => by
    rw [ofJson, leaves, List.findSome?_singleton, termFault?]
    cases n.int64? <;> simp
  | .array items, cause => by
    rw [ofJson, leaves, ← ofJsons_eq_error_iff items cause]
    cases ofJsons items <;> simp [Except.map]

/-- The same for lists. -/
theorem ofJsons_eq_error_iff : ∀ (items : List Json) (cause : Invalid),
    ofJsons items = .error cause ↔ (leavesAll items).findSome? termFault? = some cause
  | [], cause => by simp [ofJsons, leavesAll]
  | item :: items, cause => by
    have hitem := ofJson_eq_error_iff item
    rw [ofJsons, leavesAll, List.findSome?_append]
    cases hread : ofJson item with
    | error e =>
      rw [(hitem e).1 hread, Option.some_or, Option.some.injEq]
      exact ⟨Except.error.inj, congrArg Except.error⟩
    | ok t =>
      have hnone : item.leaves.findSome? termFault? = none := by
        refine Option.eq_none_iff_forall_ne_some.2 fun e he => ?_
        cases hread.symm.trans ((hitem e).2 he)
      rw [hnone, Option.none_or, ← ofJsons_eq_error_iff items cause]
      cases ofJsons items <;> simp [bind, Except.bind, pure, Except.pure]

end

end Term

/-! ### Numbers of texts -/

namespace Json

/-- The number that some digits say behind those of `m`. -/
def digitsFrom (m : Nat) (digits : List Nat) : Nat := digits.foldl (fun m d => m * 10 + d) m

/-- The number is written as the integer `i`: by digits and nothing behind them, with a minus sign if it is negative and
only then. -/
@[mk_iff]
structure Written.Number.Spells (n : Written.Number) (i : Int) : Prop where
  fraction : n.fraction = []
  exponent : n.exponent? = none
  value : i = if n.negative then -(digitsFrom 0 n.whole : Int) else digitsFrom 0 n.whole
  sign : n.negative = true → i < 0

theorem le_digitsFrom (m : Nat) (digits : List Nat) : m ≤ digitsFrom m digits := by
  induction digits generalizing m with
  | nil => exact Nat.le_refl m
  | cons d digits ih =>
    have := ih (m * 10 + d)
    rw [digitsFrom, List.foldl_cons]
    rw [digitsFrom] at this
    omega

namespace Number

/-- Digits are gathered to the end as long as what they say fits. -/
theorem gather_of_lt {m : Nat} {digits : List Nat} (h : digitsFrom m digits < UInt64.size) :
    gather m digits = (digitsFrom m digits, []) := by
  induction digits generalizing m with
  | nil => rfl
  | cons d digits ih =>
    have hd : m * 10 + d < UInt64.size := Nat.lt_of_le_of_lt (le_digitsFrom (m * 10 + d) digits) h
    rw [gather, if_pos hd]
    exact ih h

/-- What does not fit leaves digits over. -/
theorem gather_of_le {m : Nat} {digits : List Nat} (hm : m < UInt64.size) (h : UInt64.size ≤ digitsFrom m digits) :
    (gather m digits).2 ≠ [] := by
  induction digits generalizing m with
  | nil => exact absurd hm (Nat.not_lt.2 h)
  | cons d digits ih =>
    rw [gather]
    split
    · exact ih ‹_› h
    · exact List.cons_ne_nil _ _

/-- What has something behind its digits, or too many of them, is not an integer. -/
theorem ofWritten?_ne_integer {n : Written.Number}
    (h : n.fraction ≠ [] ∨ n.exponent? ≠ none ∨ (gather 0 n.whole).2 ≠ []) (i : Int) :
    ofWritten? n ≠ some (.integer i) := by
  have hplain : (n.fraction.isEmpty && n.exponent?.isNone && (gather 0 n.whole).2.isEmpty) = false := by
    rw [← Bool.not_eq_true, Bool.and_eq_true, Bool.and_eq_true, List.isEmpty_iff, Option.isNone_iff_eq_none,
      List.isEmpty_iff]
    tauto
  simp only [ofWritten?, hplain, Bool.false_and, Bool.false_eq_true, if_false]
  intro hread
  obtain ⟨x, -, hx⟩ := Option.map_eq_some_iff.1 hread
  cases hx

/-- Digits that fit and have nothing behind them are an integer, unless there is a minus sign before zero or before more
than 63 bits hold. -/
theorem ofWritten?_of_lt {n : Written.Number} (hfraction : n.fraction = []) (hexponent : n.exponent? = none)
    (hfit : digitsFrom 0 n.whole < UInt64.size) (i : Int) :
    ofWritten? n = some (.integer i) ↔
      if n.negative then i = -digitsFrom 0 n.whole ∧ i < 0 ∧ Int64.minValue.toInt ≤ i
      else i = digitsFrom 0 n.whole := by
  rw [ofWritten?, gather_of_lt hfit, hfraction, hexponent]
  generalize digitsFrom 0 n.whole = m
  cases n.negative with
  | false => simp [eq_comm]
  | true =>
    simp only [List.isEmpty_nil, Option.isNone_none, Bool.and_self, Bool.not_true, Bool.and_false, Bool.false_eq_true,
      if_false, Bool.true_and, Bool.and_eq_true, decide_eq_true_eq, if_true]
    split
    · rw [Option.some.injEq, integer.injEq]
      omega
    · refine iff_of_false (fun hread => ?_) (by omega)
      obtain ⟨x, -, hx⟩ := Option.map_eq_some_iff.1 hread
      cases hx

/-- **The numbers of a text that are integers** are those that are spelled by digits that fit 64 bits, with or without a
sign. -/
theorem ofWritten?_eq_integer_iff {n : Written.Number} {i : Int} :
    ofWritten? n = some (.integer i) ↔ n.Spells i ∧ Int64.minValue.toInt ≤ i ∧ i < UInt64.size := by
  have hmin : Int64.minValue.toInt = -9223372036854775808 := rfl
  have hsize : UInt64.size = 18446744073709551616 := rfl
  by_cases hfit : digitsFrom 0 n.whole < UInt64.size
  · by_cases hplain : n.fraction = [] ∧ n.exponent? = none
    · rw [ofWritten?_of_lt hplain.1 hplain.2 hfit, Written.Number.spells_iff, and_iff_right hplain.1,
        and_iff_right hplain.2]
      cases n.negative <;> simp <;> omega
    · refine iff_of_false (ofWritten?_ne_integer (by tauto) i) ?_
      rintro ⟨hn, -⟩
      exact hplain ⟨hn.fraction, hn.exponent⟩
  · refine iff_of_false (ofWritten?_ne_integer (.inr (.inr (gather_of_le (by decide) (Nat.not_lt.1 hfit)))) i) ?_
    rintro ⟨hn, hlow, hhigh⟩
    have hvalue := hn.value
    cases hsign : n.negative <;> rw [hsign] at hvalue <;> simp at hvalue <;> omega

end Number

end Json

/-! ### Ground terms and their values -/

namespace Term

open Json

/-- **Ground terms and the values that have a term form correspond one to one.** A ground term is read back from the
value that it is written as, and a value is read as the ground term that is written as it. A value is refused exactly
when a null, an object or a number that is not a 64-bit integer is in it, at any depth of arrays, and for the first of
these in the order of reading. Of the numbers of a text, those are 64-bit integers that are spelled as one. -/
theorem ofJson_bijective :
    (∀ t : Term, t.isGround = true → ofJson t.toJson = .ok t) ∧
      (∀ (v : Json) (t : Term), ofJson v = .ok t → t.isGround = true ∧ t.toJson = v) ∧
      (∀ v : Json, (∃ cause, ofJson v = .error cause) ↔ ∃ leaf ∈ v.leaves, ∃ cause, leaf.Refused cause) ∧
      (∀ (v : Json) (cause : Invalid), ofJson v = .error cause ↔
        ∃ before leaf after, v.leaves = before ++ leaf :: after ∧
          (∀ earlier ∈ before, ∀ c, ¬ earlier.Refused c) ∧ leaf.Refused cause) ∧
      ∀ (n : Written.Number) (k : Int64),
        (∃ x, Json.Number.ofWritten? n = some x ∧ ofJson (.number x) = .ok (.int k)) ↔ n.Spells k.toInt := by
  have herror : ∀ (v : Json) (cause : Invalid), ofJson v = .error cause ↔
      ∃ before leaf after, v.leaves = before ++ leaf :: after ∧
        (∀ earlier ∈ before, ∀ c, ¬ earlier.Refused c) ∧ leaf.Refused cause := by
    intro v cause
    rw [ofJson_eq_error_iff, List.findSome?_eq_some_iff]
    simp only [termFault?_eq_some_iff, Option.eq_none_iff_forall_ne_some, ne_eq]
    exact exists_congr fun before => exists_congr fun leaf => exists_congr fun after =>
      and_congr_right fun _ => and_comm
  refine ⟨fun t ht => (ofJson_eq_ok_iff _ t).2 ⟨ht, rfl⟩, fun v t => (ofJson_eq_ok_iff v t).1, fun v => ?_, herror,
    fun n k => ?_⟩
  · constructor
    · rintro ⟨cause, h⟩
      obtain ⟨before, leaf, after, hv, -, hleaf⟩ := (herror v cause).1 h
      exact ⟨leaf, hv ▸ List.mem_append_right _ (List.mem_cons_self ..), cause, hleaf⟩
    · rintro ⟨leaf, hmem, cause, hleaf⟩
      have hsome := List.findSome?_isSome_iff.2 ⟨leaf, hmem, Option.isSome_iff_exists.2
        ⟨cause, termFault?_eq_some_iff.2 hleaf⟩⟩
      obtain ⟨first, hfirst⟩ := Option.isSome_iff_exists.1 hsome
      exact ⟨first, (ofJson_eq_error_iff v first).2 hfirst⟩
  · have hhigh : k.toInt < UInt64.size := lt_of_le_of_lt (Int64.toInt_le k) (by decide)
    calc (∃ x, Json.Number.ofWritten? n = some x ∧ ofJson (.number x) = .ok (.int k))
      _ ↔ Json.Number.ofWritten? n = some (.integer k.toInt) := by
        simp [ofJson_number_eq_ok_iff]
      _ ↔ n.Spells k.toInt := by
        rw [Json.Number.ofWritten?_eq_integer_iff]
        exact and_iff_left ⟨Int64.minValue_le_toInt k, hhigh⟩

/-- The least integer, deep in arrays, is read back; of a number one too large and the null behind it the number is
refused; and minus zero is not an integer. -/
theorem ofJson_bijective_at_bounds :
    ofJson (compound [.int Int64.minValue, .compound [.str "a", .bool true]]).toJson =
        .ok (.compound [.int Int64.minValue, .compound [.str "a", .bool true]]) ∧
      ofJson (.array [.array [.bool true, .ofInt 9223372036854775808], .null]) =
        .error (.numberTerm (.integer 9223372036854775808)) ∧
      ∀ k : Int64,
        ¬ ∃ x, Json.Number.ofWritten? ⟨true, [0], [], none⟩ = some x ∧ ofJson (.number x) = .ok (.int k) := by
  obtain ⟨hread, -, -, hrefuse, hspell⟩ := ofJson_bijective
  refine ⟨hread _ (by decide), (hrefuse _ _).2 ⟨[.bool true], .ofInt 9223372036854775808, [.null], rfl, ?_, ?_⟩,
    fun k h => ?_⟩
  · simp only [List.forall_mem_singleton]
    rintro c ⟨⟩
  · refine .number fun i hi => ?_
    cases hi
    decide
  · have hn := (hspell _ k).1 h
    have hvalue : k.toInt = 0 := hn.value
    have hsign := hn.sign rfl
    omega

end Term

/-! ### Constants in patterns -/

namespace Json

/-- No text in the value, however deep it is nested in arrays, begins with a question mark. -/
def Constant (v : Json) : Prop := ∀ s, .string s ∈ v.leaves → s.toList.head? ≠ some '?'

end Json

namespace Term

mutual

/-- **A value that mentions no variable means the same in a pattern as in data**, and nothing is given out for it. -/
theorem ofPattern_eq_ofJson : ∀ v : Json, v.Constant → ofPattern v = StateT.lift (ofJson v)
  | .string s, h => ofPatternText_plain (h s (List.mem_singleton_self _))
  | .null, _ => rfl
  | .bool _, _ => rfl
  | .number _, _ => rfl
  | .object _, _ => rfl
  | .array items, h => by
    rw [ofPattern, ofPatterns_eq_ofJsons items h, ofJson]
    cases ofJsons items <;> rfl

/-- The same for lists. -/
theorem ofPatterns_eq_ofJsons : ∀ items : List Json, (Json.array items).Constant →
    ofPatterns items = StateT.lift (ofJsons items)
  | [], _ => rfl
  | item :: items, h => by
    rw [ofPatterns, ofPattern_eq_ofJson item fun s hs => h s (List.mem_append_left _ hs),
      ofPatterns_eq_ofJsons items fun s hs => h s (List.mem_append_right _ hs), ofJsons]
    cases ofJson item with
    | error cause => rfl
    | ok t => cases ofJsons items <;> rfl

end

end Term

end TripleStore
