import Mathlib.Data.List.Basic
import Mathlib.Data.Nat.Init
import TripleStore.Text.Quoted

/-!
# Reading written forms

A written form can be told from what follows it when two of them that are followed by something are the same text only
if they are the same form. A number is over at the first character that is not a digit (`Text.toDigits_append_inj`), the
escape of a character at its last character, and a quoted text at the first quote that is not part of an escape
(`Text.quotedChars_append_inj`).
-/

namespace TripleStore.Text

variable {b m n : Nat} {c d : Char} {cs ds r r' : List Char}

/-! ### Digits -/

/-- Texts are told from what follows them by what their characters have in common. -/
theorem append_inj_of_forall {p : Char → Bool} (hcs : ∀ c ∈ cs, p c = true) (hds : ∀ c ∈ ds, p c = true)
    (hr : ∀ c ∈ r.head?, p c = false) (hr' : ∀ c ∈ r'.head?, p c = false) (h : cs ++ r = ds ++ r') :
    cs = ds ∧ r = r' := by
  have stops {r : List Char} (hr : ∀ c ∈ r.head?, p c = false) : r.takeWhile p = [] := by
    cases r with
    | nil => rfl
    | cons c r => rw [List.takeWhile_cons_of_neg]; simp [hr c rfl]
  have hfront := congrArg (List.takeWhile p) h
  rw [List.takeWhile_append_of_pos hcs, List.takeWhile_append_of_pos hds, stops hr, stops hr', List.append_nil,
    List.append_nil] at hfront
  rw [hfront] at h
  exact ⟨hfront, List.append_cancel_left h⟩

theorem digitChar_inj (hm : m < 16) (hn : n < 16) (h : m.digitChar = n.digitChar) : m = n := by
  have hall : ∀ m < 16, ∀ n < 16, m.digitChar = n.digitChar → m = n := by decide
  exact hall m hm n hn h

theorem exists_of_mem_toDigits (hb : 1 < b) (hc : c ∈ Nat.toDigits b n) : ∃ d < b, c = d.digitChar := by
  induction n using Nat.strong_induction_on with
  | _ n ih =>
    rw [Nat.toDigits_eq_if hb] at hc
    split at hc
    · rename_i hn
      exact ⟨n, hn, List.mem_singleton.1 hc⟩
    · rename_i hn
      rcases List.mem_append.1 hc with hc | hc
      · exact ih (n / b) (Nat.div_lt_self (by omega) hb) hc
      · exact ⟨n % b, Nat.mod_lt n (by omega), List.mem_singleton.1 hc⟩

/-- Different numbers have different digits. -/
theorem toDigits_injective (hb : 1 < b) (hb' : b ≤ 16) : Function.Injective (Nat.toDigits b) := by
  intro m
  induction m using Nat.strong_induction_on with
  | _ m ih =>
    intro n h
    rw [Nat.toDigits_eq_if hb, Nat.toDigits_eq_if (n := n) hb] at h
    split at h <;> split at h
    · rename_i hm hn
      exact digitChar_inj (by omega) (by omega) (List.singleton_inj.1 h)
    · exact absurd (congrArg List.dropLast h) (by simp)
    · exact absurd (congrArg List.dropLast h) (by simp)
    · rename_i hm hn
      obtain ⟨hdiv, hmod⟩ := List.append_inj' h rfl
      have hdiv' := ih (m / b) (Nat.div_lt_self (by omega) hb) hdiv
      have hlt (k : Nat) : k % b < 16 := Nat.lt_of_lt_of_le (Nat.mod_lt k (by omega)) hb'
      have hmod' := digitChar_inj (hlt m) (hlt n) (List.singleton_inj.1 hmod)
      rw [← Nat.div_add_mod m b, hdiv', hmod', Nat.div_add_mod]

/-- What follows a decimal number does not begin with another digit. -/
def EndsNumber (r : List Char) : Prop := ∀ c ∈ r.head?, c.isDigit = false

theorem endsNumber_nil : EndsNumber [] := by simp [EndsNumber]

theorem exists_toDigits_cons (n : Nat) : ∃ c cs, Nat.toDigits 10 n = c :: cs ∧ c.isDigit = true := by
  obtain ⟨c, cs, h⟩ := List.exists_cons_of_ne_nil (Nat.toDigits_ne_nil (n := n) (b := 10))
  exact ⟨c, cs, h, Nat.isDigit_of_mem_toDigits (by decide) (by decide) (h ▸ List.mem_cons_self)⟩

/-- A decimal number is told from what follows it. -/
theorem toDigits_append_inj (hr : EndsNumber r) (hr' : EndsNumber r')
    (h : Nat.toDigits 10 m ++ r = Nat.toDigits 10 n ++ r') : m = n ∧ r = r' := by
  have digit (k : Nat) : ∀ c ∈ Nat.toDigits 10 k, c.isDigit = true := fun c hc =>
    Nat.isDigit_of_mem_toDigits (by decide) (by decide) hc
  obtain ⟨hdigits, hrest⟩ := append_inj_of_forall (digit m) (digit n) hr hr' h
  exact ⟨toDigits_injective (by decide) (by decide) hdigits, hrest⟩

/-! ### Escapes -/

/-- The characters with an escape of two characters, and the second of these. -/
def shortEscapes : List (Char × Char) :=
  [('"', '"'), ('\\', '\\'), ('\n', 'n'), ('\r', 'r'), ('\t', 't'), ('\x00', '0')]

/-- A character is written as itself, by a short escape, or by its code point. -/
theorem quotedChar_cases (c : Char) :
    (quotedChar c = [c] ∧ c ≠ '"' ∧ c ≠ '\\') ∨ (∃ e, (c, e) ∈ shortEscapes ∧ quotedChar c = ['\\', e]) ∨
      quotedChar c = codeEscape c := by
  rw [quotedChar]
  split_ifs with hquote hbackslash hn hr ht hzero hvisible
  · exact .inr (.inl ⟨'"', by simp [shortEscapes, hquote], rfl⟩)
  · exact .inr (.inl ⟨'\\', by simp [shortEscapes, hbackslash], rfl⟩)
  · exact .inr (.inl ⟨'n', by simp [shortEscapes, hn], rfl⟩)
  · exact .inr (.inl ⟨'r', by simp [shortEscapes, hr], rfl⟩)
  · exact .inr (.inl ⟨'t', by simp [shortEscapes, ht], rfl⟩)
  · exact .inr (.inl ⟨'0', by simp [shortEscapes, hzero], rfl⟩)
  · exact .inl ⟨rfl, hquote, hbackslash⟩
  · exact .inr (.inr rfl)

/-- Different characters have different short escapes, none of which begins the escape of a code point. -/
theorem shortEscapes_inj : ∀ x ∈ shortEscapes, x.2 ≠ 'u' ∧ ∀ y ∈ shortEscapes, x.2 = y.2 → x.1 = y.1 := by decide

theorem codeEscape_append_inj (h : codeEscape c ++ r = codeEscape d ++ r') : c = d ∧ r = r' := by
  have inside (c : Char) : ∀ x ∈ Nat.toDigits 16 c.toNat, (x != '\x7d') = true := by
    intro x hx
    obtain ⟨k, hk, rfl⟩ := exists_of_mem_toDigits (by decide) hx
    have hall : ∀ k < 16, (k.digitChar != '\x7d') = true := by decide
    exact hall k hk
  simp only [codeEscape, List.cons_append, List.nil_append, List.append_assoc, List.cons.injEq, true_and] at h
  obtain ⟨hdigits, hrest⟩ := append_inj_of_forall (inside c) (inside d) (by simp) (by simp) h
  exact ⟨Char.toNat_inj.1 (toDigits_injective (by decide) (by decide) hdigits), (List.cons.inj hrest).2⟩

/-- **The written form of a character** is told from what follows it: an escape begins with a backslash, which is never
written as itself, and no escape begins another one. -/
theorem quotedChar_append_inj (h : quotedChar c ++ r = quotedChar d ++ r') : c = d ∧ r = r' := by
  rcases quotedChar_cases c with ⟨hc, -, hc'⟩ | ⟨e, he, hc⟩ | hc <;>
    rcases quotedChar_cases d with ⟨hd, -, hd'⟩ | ⟨f, hf, hd⟩ | hd <;> rw [hc, hd] at h
  · simpa using h
  · exact absurd (List.cons.inj h).1 hc'
  · exact absurd (List.cons.inj h).1 hc'
  · exact absurd (List.cons.inj h).1.symm hd'
  · obtain ⟨hef, hrest⟩ := List.cons.inj (List.cons.inj h).2
    exact ⟨(shortEscapes_inj _ he).2 _ hf hef, hrest⟩
  · exact absurd (List.cons.inj (List.cons.inj h).2).1 (shortEscapes_inj _ he).1
  · exact absurd (List.cons.inj h).1.symm hd'
  · exact absurd (List.cons.inj (List.cons.inj h).2).1.symm (shortEscapes_inj _ hf).1
  · exact codeEscape_append_inj h

/-- No written form of a character begins with a quote. -/
theorem head?_quotedChar_append (c : Char) (r : List Char) : (quotedChar c ++ r).head? ≠ some '"' := by
  rcases quotedChar_cases c with ⟨hc, hquote, -⟩ | ⟨e, -, hc⟩ | hc <;> rw [hc]
  · simpa using hquote
  · simp
  · simp [codeEscape]

/-! ### Quoted texts -/

/-- **A quoted text** is told from what follows it. -/
theorem quotedChars_append_inj (h : quotedChars cs ++ r = quotedChars ds ++ r') : cs = ds ∧ r = r' := by
  simp only [quotedChars, List.cons_append, List.append_assoc, List.nil_append, List.cons.injEq, true_and] at h
  induction cs generalizing ds with
  | nil =>
    cases ds with
    | nil => exact ⟨rfl, (List.cons.inj h).2⟩
    | cons d ds =>
      rw [List.flatMap_cons, List.append_assoc] at h
      exact absurd (congrArg List.head? h).symm (head?_quotedChar_append d _)
  | cons c cs ih =>
    rw [List.flatMap_cons, List.append_assoc] at h
    cases ds with
    | nil => exact absurd (congrArg List.head? h) (head?_quotedChar_append c _)
    | cons d ds =>
      rw [List.flatMap_cons, List.append_assoc] at h
      obtain ⟨hcd, hrest⟩ := quotedChar_append_inj h
      obtain ⟨hcs, hr⟩ := ih hrest
      exact ⟨List.cons_eq_cons.2 ⟨hcd, hcs⟩, hr⟩

end TripleStore.Text
