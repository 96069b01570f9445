import TripleStore.Json.Terms
import TripleStore.Proofs.Term.Assignment

/-!
# Reading ground terms back

Each ground term is written as a JSON value of its own, and a JSON value is read as the term that is written as it, if
there is one (`Term.ofJson_eq_ok_iff`). So what is read is ground, and nothing of the value is lost.
-/

namespace TripleStore

theorem bind_eq_ok_iff {ε α β : Type} {x : Except ε α} {f : α → Except ε β} {b : β} :
    x >>= f = .ok b ↔ ∃ a, x = .ok a ∧ f a = .ok b := by
  cases x <;> simp [bind, Except.bind]

theorem mapError_eq_ok_iff {ε ε' α : Type} {x : Except ε α} {f : ε → ε'} {a : α} :
    x.mapError f = .ok a ↔ x = .ok a := by
  cases x <;> simp [Except.mapError]

theorem mapError_eq_error_iff {ε ε' α : Type} {x : Except ε α} {f : ε → ε'} {e : ε'} :
    x.mapError f = .error e ↔ ∃ cause, x = .error cause ∧ f cause = e := by
  cases x <;> simp [Except.mapError]

/-- A number is read as the integer that is written as it. -/
theorem Json.Number.int64?_eq_some_iff {n : Json.Number} {k : Int64} :
    n.int64? = some k ↔ Json.Number.integer k.toInt = n := by
  cases n with
  | decimal x => simp [int64?]
  | integer i =>
    rw [int64?, Json.Number.integer.injEq]
    constructor
    · intro h
      split at h
      · rename_i hi
        cases h
        exact Int64.toInt_ofInt_of_le hi.1 (by have := Int64.toInt_maxValue; omega)
      · cases h
    · rintro rfl
      rw [if_pos ⟨Int64.minValue_le_toInt k, Int64.toInt_le k⟩, Int64.ofInt_toInt]

namespace Term

theorem ofJson_number_eq_ok_iff {n : Json.Number} {t : Term} :
    ofJson (.number n) = .ok t ↔ ∃ k : Int64, Json.Number.integer k.toInt = n ∧ int k = t := by
  simp only [← Json.Number.int64?_eq_some_iff, ofJson]
  cases n.int64? <;> simp

mutual

/-- A JSON value is read as a term exactly when the term is ground and is written as the value. -/
theorem ofJson_eq_ok_iff : ∀ (v : Json) (t : Term), ofJson v = .ok t ↔ t.isGround = true ∧ t.toJson = v
  | .null, t => by cases t <;> simp [ofJson, toJson]
  | .bool b, t => by
    cases t with
    | bool c => simpa [ofJson, toJson, isGround, vars] using eq_comm
    | _ => simp [ofJson, toJson]
  | .string s, t => by
    cases t with
    | var v => simp [ofJson, isGround, vars]
    | str u => simpa [ofJson, toJson, isGround, vars] using eq_comm
    | _ => simp [ofJson, toJson]
  | .object members, t => by cases t <;> simp [ofJson, toJson]
  | .number n, t => by
    rw [ofJson_number_eq_ok_iff]
    cases t <;> simp [toJson, isGround, vars]
  | .array items, t => by
    have hread : ofJson (.array items) = .ok t ↔ ∃ ts, ofJsons items = .ok ts ∧ compound ts = t := by
      rw [ofJson]
      cases ofJsons items <;> simp [Except.map]
    rw [hread]
    cases t <;> simp [toJson, isGround_compound, ofJsons_eq_ok_iff items]

/-- The same for lists. -/
theorem ofJsons_eq_ok_iff : ∀ (vs : List Json) (ts : List Term),
    ofJsons vs = .ok ts ↔ (∀ t ∈ ts, t.isGround = true) ∧ toJsons ts = vs
  | [], ts => by cases ts <;> simp [ofJsons, toJsons]
  | v :: vs, ts => by
    have hread : ofJsons (v :: vs) = .ok ts ↔ ∃ t, ofJson v = .ok t ∧ ∃ us, ofJsons vs = .ok us ∧ t :: us = ts := by
      simp only [ofJsons, bind_eq_ok_iff, pure, Except.pure, Except.ok.injEq]
    rw [hread]
    cases ts with
    | nil => simp [toJsons]
    | cons t ts =>
      simp [toJsons, ofJson_eq_ok_iff v, ofJsons_eq_ok_iff vs]
      tauto

end

end Term

end TripleStore
