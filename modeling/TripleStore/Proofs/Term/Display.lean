import TripleStore.Goal
import TripleStore.Proofs.Term.Assignment
import TripleStore.Proofs.Text.Quoted
import TripleStore.Term.Order

/-!
# The text of a term tells the term

The first character of a term's text tells the kind of the term (`Term.kindOf`). A constant or a variable is then read up
to where it ends, and a sequence item by item up to the closing bracket. So a text that begins with the text of a term
does so with that of one term only, if a number is not continued by what follows (`Term.readInOneWay`), and different
terms and patterns have different texts (**`displays_unambiguous`**).
-/

namespace TripleStore

open Text

variable {c : Char} {r r' : List Char} {ts us : List Term}

/-- An integer is told from what follows it. -/
theorem integerChars_append_inj {m n : Int} (hr : EndsNumber r) (hr' : EndsNumber r')
    (h : integerChars m ++ r = integerChars n ++ r') : m = n ∧ r = r' := by
  have signed {k l : Nat} {r r' : List Char} : Nat.toDigits 10 k ++ r ≠ '-' :: (Nat.toDigits 10 l ++ r') := by
    intro heq
    obtain ⟨c, cs, hdigits, hc⟩ := exists_toDigits_cons k
    rw [hdigits, List.cons_append] at heq
    rw [(List.cons.inj heq).1] at hc
    cases hc
  cases m with
  | ofNat m =>
    cases n with
    | ofNat n =>
      obtain ⟨rfl, hrest⟩ := toDigits_append_inj hr hr' h
      exact ⟨rfl, hrest⟩
    | negSucc n => exact absurd h signed
  | negSucc m =>
    cases n with
    | ofNat n => exact absurd h.symm signed
    | negSucc n =>
      obtain ⟨hmn, hrest⟩ := toDigits_append_inj hr hr' (List.cons.inj h).2
      exact ⟨congrArg Int.negSucc (Nat.succ.inj hmn), hrest⟩

theorem commaSeparated_cons (x : List Char) (xs : List (List Char)) :
    commaSeparated (x :: xs) = x ++ xs.flatMap fun y => ',' :: ' ' :: y := by
  induction xs generalizing x with
  | nil => rw [commaSeparated, List.flatMap_nil, List.append_nil]
  | cons y ys ih => rw [commaSeparated, ih, List.flatMap_cons, List.cons_append, List.cons_append]

namespace Term

theorem displayEach_eq_map (ts : List Term) : displayEach ts = ts.map displayChars := by
  induction ts with
  | nil => rfl
  | cons t ts ih => rw [displayEach, ih, List.map_cons]

/-! ### Kinds of terms -/

/-- The kind of the terms whose texts begin with a character, or five if there are none. -/
def kindOf (c : Char) : Nat :=
  if c = '_' then 0
  else if c = '"' then 1
  else if c.isDigit ∨ c = '-' then 2
  else if c = 't' ∨ c = 'f' then 3
  else if c = '[' then 4
  else 5

theorem kindOf_of_isDigit (hc : c.isDigit = true) : kindOf c = 2 := by
  rw [kindOf, if_neg, if_neg, if_pos (.inl hc)]
  · rintro rfl
    cases hc
  · rintro rfl
    cases hc

/-- The first character of the text of a term tells its kind. -/
theorem exists_displayChars_cons (t : Term) : ∃ c cs, t.displayChars = c :: cs ∧ kindOf c = t.kind := by
  cases t with
  | var v => exact ⟨_, _, rfl, rfl⟩
  | str s => exact ⟨_, _, rfl, rfl⟩
  | int k =>
    rw [displayChars]
    cases k.toInt with
    | ofNat n =>
      obtain ⟨c, cs, h, hc⟩ := exists_toDigits_cons n
      exact ⟨c, cs, h, kindOf_of_isDigit hc⟩
    | negSucc n => exact ⟨_, _, rfl, rfl⟩
  | bool b => cases b <;> exact ⟨_, _, rfl, rfl⟩
  | compound items => exact ⟨_, _, rfl, rfl⟩

theorem kind_eq_of_append {t u : Term} (h : t.displayChars ++ r = u.displayChars ++ r') : t.kind = u.kind := by
  obtain ⟨c, cs, ht, hc⟩ := t.exists_displayChars_cons
  obtain ⟨d, ds, hu, hd⟩ := u.exists_displayChars_cons
  rw [ht, hu] at h
  rw [← hc, ← hd, (List.cons.inj h).1]

/-- A text that begins with a character that begins no term does not begin with a term. -/
theorem displayChars_append_ne (hc : kindOf c = 5) (t : Term) : t.displayChars ++ r ≠ c :: r' := by
  intro h
  obtain ⟨d, ds, ht, hd⟩ := t.exists_displayChars_cons
  rw [ht] at h
  rw [(List.cons.inj h).1, hc] at hd
  cases t <;> cases hd

/-! ### Reading -/

/-- The term is told from what follows its text, if that does not continue a number. -/
def ReadInOneWay (t : Term) : Prop :=
  ∀ ⦃u r r'⦄, EndsNumber r → EndsNumber r' → t.displayChars ++ r = u.displayChars ++ r' → t = u ∧ r = r'

/-- Items that follow other items are told from what follows them, up to a character that is no comma. -/
theorem flatMap_append_inj (hc : kindOf c = 5) (hcomma : c ≠ ',') (hts : ∀ t ∈ ts, t.ReadInOneWay)
    (h : (ts.flatMap fun t => ',' :: ' ' :: t.displayChars) ++ c :: r
      = (us.flatMap fun t => ',' :: ' ' :: t.displayChars) ++ c :: r') : ts = us ∧ r = r' := by
  have ends (ts : List Term) (r : List Char) :
      EndsNumber ((ts.flatMap fun t => ',' :: ' ' :: t.displayChars) ++ c :: r) := by
    cases ts with
    | nil =>
      rintro _ ⟨⟩
      cases hdigit : c.isDigit with
      | false => rfl
      | true => rw [kindOf_of_isDigit hdigit] at hc; cases hc
    | cons t ts =>
      rintro _ ⟨⟩
      rfl
  induction ts generalizing us with
  | nil =>
    cases us with
    | nil => exact ⟨rfl, (List.cons.inj h).2⟩
    | cons u us => exact absurd (List.cons.inj h).1 hcomma
  | cons t ts ih =>
    cases us with
    | nil => exact absurd (List.cons.inj h).1.symm hcomma
    | cons u us =>
      simp only [List.flatMap_cons, List.cons_append, List.append_assoc, List.cons.injEq, true_and] at h
      obtain ⟨ht, hts⟩ := List.forall_mem_cons.1 hts
      obtain ⟨htu, hrest⟩ := ht (ends ts r) (ends us r') h
      obtain ⟨hts, hr⟩ := ih hts hrest
      exact ⟨List.cons_eq_cons.2 ⟨htu, hts⟩, hr⟩

/-- A list of items is told from what follows it, up to the closing bracket. -/
theorem commaSeparated_append_inj (hc : kindOf c = 5) (hcomma : c ≠ ',') (hts : ∀ t ∈ ts, t.ReadInOneWay)
    (h : commaSeparated (displayEach ts) ++ c :: r = commaSeparated (displayEach us) ++ c :: r') :
    ts = us ∧ r = r' := by
  rw [displayEach_eq_map, displayEach_eq_map] at h
  cases ts with
  | nil =>
    cases us with
    | nil => exact ⟨rfl, (List.cons.inj h).2⟩
    | cons u us =>
      rw [List.map_cons, commaSeparated_cons, List.append_assoc] at h
      exact absurd h.symm (displayChars_append_ne hc u)
  | cons t ts =>
    rw [List.map_cons, commaSeparated_cons, List.append_assoc] at h
    cases us with
    | nil => exact absurd h (displayChars_append_ne hc t)
    | cons u us =>
      -- put in front of both sides, a comma and a blank make the first item one of the others
      have hitems : ',' :: ' ' :: (t.displayChars ++ ((ts.map displayChars).flatMap (fun y => ',' :: ' ' :: y) ++ c :: r))
          = ',' :: ' ' :: (u.displayChars ++ ((us.map displayChars).flatMap (fun y => ',' :: ' ' :: y) ++ c :: r')) := by
        rw [h, List.map_cons, commaSeparated_cons, List.append_assoc]
      refine flatMap_append_inj hc hcomma hts ?_
      simpa only [List.flatMap_cons, List.flatMap_map, List.cons_append, List.append_assoc] using hitems

/-- **Every term is told from what follows its text.** -/
theorem readInOneWay (t : Term) : t.ReadInOneWay := by
  induction t with
  | var v =>
    intro u r r' hr hr' h
    have hkind := kind_eq_of_append h
    cases u with
    | var w =>
      obtain ⟨hvw, hrest⟩ := toDigits_append_inj hr hr' (List.cons.inj (List.cons.inj h).2).2
      exact ⟨congrArg var hvw, hrest⟩
    | _ => simp [kind] at hkind
  | str s =>
    intro u r r' _ _ h
    have hkind := kind_eq_of_append h
    cases u with
    | str s' =>
      obtain ⟨hs, hrest⟩ := quotedChars_append_inj h
      exact ⟨congrArg str (String.toList_inj.1 hs), hrest⟩
    | _ => simp [kind] at hkind
  | int k =>
    intro u r r' hr hr' h
    have hkind := kind_eq_of_append h
    cases u with
    | int l =>
      obtain ⟨hkl, hrest⟩ := integerChars_append_inj hr hr' h
      exact ⟨congrArg int (Int64.toInt_inj.1 hkl), hrest⟩
    | _ => simp [kind] at hkind
  | bool b =>
    intro u r r' _ _ h
    have hkind := kind_eq_of_append h
    cases u with
    | bool b' => cases b <;> cases b' <;> simp_all [displayChars]
    | _ => simp [kind] at hkind
  | compound items ih =>
    intro u r r' _ _ h
    have hkind := kind_eq_of_append h
    cases u with
    | compound items' =>
      simp only [displayChars, List.cons_append, List.append_assoc, List.nil_append, List.cons.injEq, true_and] at h
      obtain ⟨hitems, hrest⟩ := commaSeparated_append_inj rfl (by decide) ih h
      exact ⟨congrArg compound hitems, hrest⟩
    | _ => simp [kind] at hkind

theorem display_injective : Function.Injective display := by
  intro t u h
  have hchars : t.displayChars ++ [] = u.displayChars ++ [] := congrArg (· ++ []) (String.ofList_inj.1 h)
  exact (t.readInOneWay endsNumber_nil endsNumber_nil hchars).1

end Term

theorem Triple.display_injective : Function.Injective Triple.display := by
  intro a b h
  have hchars : commaSeparated (Term.displayEach a.toList) ++ [')']
      = commaSeparated (Term.displayEach b.toList) ++ [')'] := by
    have hlists := congrArg String.toList h
    simpa [Triple.display, Term.displayList] using hlists
  obtain ⟨hpositions, -⟩ := Term.commaSeparated_append_inj rfl (by decide) (fun t _ => t.readInOneWay) hchars
  cases a
  cases b
  simpa [toList] using hpositions

/-- **Texts of terms and patterns are unambiguous**: two terms have the same text only if they are the same, whatever
texts they contain, and so do two patterns. -/
theorem displays_unambiguous : (∀ t u : Term, t.display = u.display ↔ t = u) ∧
    ∀ a b : Triple, (Goal.pattern a).display = (Goal.pattern b).display ↔ a = b :=
  ⟨fun _ _ => Term.display_injective.eq_iff, fun _ _ => Triple.display_injective.eq_iff⟩

/-- A quote and a comma in a text do not make it two texts. -/
example : (Term.compound [.str "a\", \"b"]).display = "[\"a\\\", \\\"b\"]" ∧
    (Term.compound [.str "a", .str "b"]).display = "[\"a\", \"b\"]" := by decide

end TripleStore
