import TripleStore.Proofs.Json.Terms
import TripleStore.Proofs.Mentions

/-!
# Reading patterns

The term of a JSON value in a pattern is the value with a variable in place of each mention (`Term.Reads`). The reader
gives just such a term, whose variables the scope gives out (`Term.ofPattern_gives`). It refuses a value that has
something in it that is not for patterns, however deep it is nested in arrays; what comes first in the order of reading
is the cause (`Term.ofPattern_refuses`).

A term does not depend on what its variables are called: other names that are different where the names are leave it as
it is (`Term.Reads.rename`).
-/

namespace TripleStore

/-! ### Values in patterns -/

namespace Json

mutual

/-- The values in a value that are not arrays, in the order of reading. -/
def leaves : Json → List Json
  | .array items => leavesAll items
  | .null => [.null]
  | .bool b => [.bool b]
  | .number n => [.number n]
  | .string s => [.string s]
  | .object members => [.object members]

/-- The same of all values of a list. -/
def leavesAll : List Json → List Json
  | [] => []
  | item :: items => leaves item ++ leavesAll items

end

/-- Why a value that is not an array is not for patterns, if it is not. -/
def patternFault? : Json → Option Invalid
  | .null => some .nullTerm
  | .number n => if n.int64?.isSome then none else some (.numberTerm n)
  | .string s => if s = "?" then some .missingName else none
  | .object members => some (.objectTerm (.object members))
  | .bool _ => none
  | .array _ => none

mutual

/-- Gives the names that a value mentions other ones. -/
def rename (f : String → String) : Json → Json
  | .string s => .string (Mention.renameText f s)
  | .array items => .array (renameAll f items)
  | .null => .null
  | .bool b => .bool b
  | .number n => .number n
  | .object members => .object members

/-- Gives the names that some values mention other ones. -/
def renameAll (f : String → String) : List Json → List Json
  | [] => []
  | item :: items => rename f item :: renameAll f items

end

theorem leavesAll_append (items items' : List Json) :
    leavesAll (items ++ items') = leavesAll items ++ leavesAll items' := by
  induction items with
  | nil => rfl
  | cons item items ih => rw [List.cons_append, leavesAll, ih, leavesAll, List.append_assoc]

end Json

namespace Term

mutual

/-- The term is the value with variables in place of the mentions, which the trail lists in the order of reading. -/
inductive Reads : Json → Term → List (Mention × Nat) → Prop
  /-- A mention has become a variable. -/
  | mention {m : Mention} {v : Nat} : m.Proper → Reads (.string m.text) (.var v) [(m, v)]
  /-- Any other text is a constant. -/
  | str {s : String} : s.toList.head? ≠ some '?' → Reads (.string s) (.str s) []
  /-- A truth value is a constant. -/
  | bool (b : Bool) : Reads (.bool b) (.bool b) []
  /-- A 64-bit integer is a constant. -/
  | int (k : Int64) : Reads (.number (.integer k.toInt)) (.int k) []
  /-- An array is a sequence. -/
  | array {items : List Json} {ts : List Term} {trail : List (Mention × Nat)} :
      ReadsAll items ts trail → Reads (.array items) (.compound ts) trail

/-- The same for the values of a list, from left to right. -/
inductive ReadsAll : List Json → List Term → List (Mention × Nat) → Prop
  | nil : ReadsAll [] [] []
  | cons {item : Json} {items : List Json} {t : Term} {ts : List Term} {trail trail' : List (Mention × Nat)} :
      Reads item t trail → ReadsAll items ts trail' → ReadsAll (item :: items) (t :: ts) (trail ++ trail')

end

theorem reads_string_iff {s : String} {t : Term} {trail : List (Mention × Nat)} :
    Reads (.string s) t trail ↔
      (∃ m v, m.Proper ∧ m.text = s ∧ var v = t ∧ [(m, v)] = trail) ∨
        s.toList.head? ≠ some '?' ∧ str s = t ∧ [] = trail := by
  constructor
  · intro h
    cases h with
    | mention hm => exact .inl ⟨_, _, hm, rfl, rfl, rfl⟩
    | str hs => exact .inr ⟨hs, rfl, rfl⟩
  · rintro (⟨m, v, hm, rfl, rfl, rfl⟩ | ⟨hs, rfl, rfl⟩)
    · exact .mention hm
    · exact .str hs

end Term

/-! ### Variables and names -/

namespace Term

mutual

/-- The variables of a term that has been read are those of the mentions. -/
theorem Reads.vars_eq : ∀ {value : Json} {t : Term} {trail : List (Mention × Nat)}, Reads value t trail →
    t.vars = trail.map Prod.snd
  | _, _, _, .mention _ => rfl
  | _, _, _, .str _ => rfl
  | _, _, _, .bool _ => rfl
  | _, _, _, .int _ => rfl
  | _, _, _, .array h => h.vars_eq

theorem ReadsAll.vars_eq : ∀ {items : List Json} {ts : List Term} {trail : List (Mention × Nat)},
    ReadsAll items ts trail → varsAll ts = trail.map Prod.snd
  | _, _, _, .nil => rfl
  | _, _, _, .cons h h' => by rw [varsAll, h.vars_eq, h'.vars_eq, List.map_append]

end

mutual

/-- What a value is read as does not depend on the names that it mentions. -/
theorem Reads.rename (f : String → String) : ∀ {value : Json} {t : Term} {trail : List (Mention × Nat)},
    Reads value t trail → (∀ x ∈ trail, (x.1.rename f).Proper) →
      Reads (value.rename f) t (trail.map (Prod.map (Mention.rename f) id))
  | _, _, _, .mention hm, hf => by
    rw [Json.rename, Mention.renameText_text hm]
    exact .mention (hf _ (List.mem_singleton_self _))
  | _, _, _, .str hs, _ => by
    rw [Json.rename, Mention.renameText_plain hs]
    exact .str hs
  | _, _, _, .bool b, _ => .bool b
  | _, _, _, .int k, _ => .int k
  | _, _, _, .array h, hf => .array (h.rename f hf)

theorem ReadsAll.rename (f : String → String) : ∀ {items : List Json} {ts : List Term} {trail : List (Mention × Nat)},
    ReadsAll items ts trail → (∀ x ∈ trail, (x.1.rename f).Proper) →
      ReadsAll (Json.renameAll f items) ts (trail.map (Prod.map (Mention.rename f) id))
  | _, _, _, .nil, _ => .nil
  | _, _, _, .cons h h', hf => by
    rw [List.map_append]
    exact .cons (h.rename f fun x hx => hf x (List.mem_append_left _ hx))
      (h'.rename f fun x hx => hf x (List.mem_append_right _ hx))

end

end Term

/-! ### Running the reader -/

namespace Scoping

open Json

variable {α β : Type} {x : Scoping α} {f : α → Scoping β} {R S : α → List (Mention × Nat) → Prop}
  {T : α → β → List (Mention × Nat) → Prop} {values values' : List Json}

/-- A computation gives just the results in the relation, with the variables that the scope gives out for the trail. -/
def Gives (x : Scoping α) (R : α → List (Mention × Nat) → Prop) : Prop :=
  ∀ a scope scope', x.run scope = .ok (a, scope') ↔ ∃ trail, R a trail ∧ scope.GivesOut trail scope'

/-- A computation refuses its input for the first of some values that is not for patterns. -/
def Refuses (x : Scoping α) (values : List Json) : Prop :=
  ∀ cause scope, x.run scope = .error cause ↔ values.findSome? patternFault? = some cause

theorem Gives.congr (h : Gives x R) (heq : ∀ a trail, R a trail ↔ S a trail) : Gives x S :=
  fun a scope scope' => (h a scope scope').trans (exists_congr fun trail => and_congr_left' (heq a trail))

theorem gives_lift (y : Except Invalid α) : Gives (StateT.lift y) fun a trail => y = .ok a ∧ [] = trail := by
  intro a scope scope'
  cases y <;> simp [StateT.run_lift, bind, Except.bind, pure, Except.pure, and_assoc]

theorem gives_pure (b : α) : Gives (pure b) fun a trail => b = a ∧ [] = trail :=
  (gives_lift (.ok b)).congr fun _ _ => by rw [Except.ok.injEq]

/-- One after the other, the trails are joined. -/
theorem Gives.bind (hx : Gives x R) (hf : ∀ a, Gives (f a) (T a)) :
    Gives (x >>= f) fun b trail => ∃ a first rest, R a first ∧ T a b rest ∧ first ++ rest = trail := by
  intro b scope scope'
  rw [StateT.run_bind, bind_eq_ok_iff, Prod.exists]
  constructor
  · rintro ⟨a, middle, hrun, hrun'⟩
    obtain ⟨first, hfirst, hgives⟩ := (hx a scope middle).1 hrun
    obtain ⟨rest, hrest, hgives'⟩ := (hf a b middle scope').1 hrun'
    exact ⟨_, ⟨a, first, rest, hfirst, hrest, rfl⟩, Scope.givesOut_append_iff.2 ⟨middle, hgives, hgives'⟩⟩
  · rintro ⟨_, ⟨a, first, rest, hfirst, hrest, rfl⟩, hgives⟩
    obtain ⟨middle, hgives, hgives'⟩ := Scope.givesOut_append_iff.1 hgives
    exact ⟨a, middle, (hx a scope middle).2 ⟨first, hfirst, hgives⟩, (hf a b middle scope').2 ⟨rest, hrest, hgives'⟩⟩

theorem Gives.map (hx : Gives x R) (g : α → β) :
    Gives (x >>= fun a => pure (g a)) fun b trail => ∃ a, R a trail ∧ g a = b := by
  refine (hx.bind fun a => gives_pure (g a)).congr fun b trail => ?_
  constructor
  · rintro ⟨a, first, _, hfirst, ⟨hg, rfl⟩, rfl⟩
    exact ⟨a, by rwa [List.append_nil], hg⟩
  · rintro ⟨a, ha, hg⟩
    exact ⟨a, trail, [], ha, ⟨hg, rfl⟩, List.append_nil trail⟩

theorem refuses_lift {y : Except Invalid α}
    (h : ∀ cause, y = .error cause ↔ values.findSome? patternFault? = some cause) : Refuses (StateT.lift y) values := by
  intro cause scope
  rw [← h]
  cases y <;> simp [StateT.run_lift, bind, Except.bind, pure, Except.pure]

theorem refuses_pure (a : α) : Refuses (pure a) [] := fun _ _ => iff_of_false nofun nofun

/-- One after the other, what comes first in the input is refused first. -/
theorem Refuses.bind (hx : Refuses x values) (hf : ∀ a, Refuses (f a) values') :
    Refuses (x >>= f) (values ++ values') := by
  intro cause scope
  rw [StateT.run_bind, List.findSome?_append]
  cases hrun : x.run scope with
  | error e =>
    rw [(hx e scope).1 hrun, Option.some_or, Option.some.injEq]
    change Except.error e = Except.error cause ↔ _
    rw [Except.error.injEq]
  | ok a =>
    have hnone : values.findSome? patternFault? = none := by
      refine Option.eq_none_iff_forall_ne_some.2 fun e he => ?_
      rw [(hx e scope).2 he] at hrun
      cases hrun
    rw [hnone, Option.none_or]
    exact hf a.1 cause a.2

theorem Refuses.map (hx : Refuses x values) (g : α → β) : Refuses (x >>= fun a => pure (g a)) values := by
  have hbind := hx.bind fun a => refuses_pure (g a)
  rwa [List.append_nil] at hbind

end Scoping

namespace Term

open Scoping Json

theorem ofPatternText_gives (s : String) : Gives (ofPatternText s) (Reads (.string s)) := by
  intro t scope scope'
  rcases Mention.text_cases s with rfl | ⟨m, hm, rfl⟩ | hs
  · refine iff_of_false nofun ?_
    rintro ⟨trail, h, -⟩
    rcases reads_string_iff.1 h with ⟨m, v, hm, htext, -⟩ | ⟨hs, -⟩
    · exact hm.text_ne htext
    · exact hs rfl
  · rw [ofPatternText_mention hm, Except.ok.injEq, Prod.mk.injEq]
    constructor
    · rintro ⟨rfl, rfl⟩
      exact ⟨_, .mention hm, .cons rfl .nil⟩
    · rintro ⟨trail, h, hgives⟩
      rcases reads_string_iff.1 h with ⟨m', v, hm', htext, rfl, rfl⟩ | ⟨hs, -⟩
      · obtain rfl := hm'.text_inj hm htext
        obtain ⟨_, hmention, hnil⟩ := Scope.givesOut_cons_iff.1 hgives
        rw [hmention, Scope.givesOut_nil_iff.1 hnil]
        exact ⟨rfl, rfl⟩
      · exact absurd m.head?_text hs
  · rw [ofPatternText_plain hs]
    refine (gives_pure (str s)).congr (fun t trail => ?_) t scope scope'
    rw [reads_string_iff, and_iff_right hs]
    refine (or_iff_right ?_).symm
    rintro ⟨m, v, hm, rfl, -⟩
    exact absurd m.head?_text hs

mutual

/-- **A value is read as just the terms that it has**, with the variables that the scope gives out for its mentions. -/
theorem ofPattern_gives : ∀ value : Json, Gives (ofPattern value) (Reads value)
  | .string s => ofPatternText_gives s
  | .array items => by
    rw [ofPattern]
    refine ((ofPatterns_gives items).map compound).congr fun t trail => ?_
    constructor
    · rintro ⟨ts, h, rfl⟩
      exact .array h
    · rintro (_ | _ | _ | _ | h)
      exact ⟨_, h, rfl⟩
  | .null => (gives_lift _).congr fun t trail => iff_of_false nofun nofun
  | .object members => (gives_lift _).congr fun t trail => iff_of_false nofun nofun
  | .bool b => by
    rw [ofPattern]
    refine (gives_lift _).congr fun t trail => ?_
    rw [ofJson, Except.ok.injEq]
    constructor
    · rintro ⟨rfl, rfl⟩
      exact .bool b
    · rintro ⟨⟩
      exact ⟨rfl, rfl⟩
  | .number n => by
    rw [ofPattern]
    refine (gives_lift _).congr fun t trail => ?_
    rw [ofJson_number_eq_ok_iff]
    constructor
    · rintro ⟨⟨k, rfl, rfl⟩, rfl⟩
      exact .int k
    · rintro ⟨⟩
      exact ⟨⟨_, rfl, rfl⟩, rfl⟩

/-- The same for lists. -/
theorem ofPatterns_gives : ∀ items : List Json, Gives (ofPatterns items) (ReadsAll items)
  | [] => by
    rw [ofPatterns]
    refine (gives_pure []).congr fun ts trail => ?_
    constructor
    · rintro ⟨rfl, rfl⟩
      exact .nil
    · rintro ⟨⟩
      exact ⟨rfl, rfl⟩
  | item :: items => by
    rw [ofPatterns]
    refine ((ofPattern_gives item).bind fun t => (ofPatterns_gives items).map (t :: ·)).congr fun ts trail => ?_
    constructor
    · rintro ⟨t, first, rest, hfirst, ⟨us, hrest, rfl⟩, rfl⟩
      exact .cons hfirst hrest
    · rintro (_ | ⟨hfirst, hrest⟩)
      exact ⟨_, _, _, hfirst, ⟨_, hrest, rfl⟩, rfl⟩

end

/-- Of texts, only a question mark with nothing after it is refused. -/
theorem ofPatternText_refuses (s : String) : Refuses (ofPatternText s) [.string s] := by
  intro cause scope
  rw [List.findSome?_singleton, patternFault?]
  split
  · rename_i hs
    rw [hs, Option.some.injEq]
    exact ⟨Except.error.inj, congrArg Except.error⟩
  · rename_i hs
    refine iff_of_false ?_ nofun
    rcases Mention.text_cases s with rfl | ⟨m, hm, rfl⟩ | hplain
    · exact absurd rfl hs
    · rw [ofPatternText_mention hm]
      nofun
    · rw [ofPatternText_plain hplain]
      nofun

mutual

/-- **A value is refused for the first of its leaves** that is not for patterns. -/
theorem ofPattern_refuses : ∀ value : Json, Refuses (ofPattern value) value.leaves
  | .string s => ofPatternText_refuses s
  | .array items => (ofPatterns_refuses items).map compound
  | .null => refuses_lift fun cause => by simp [ofJson, leaves, patternFault?]
  | .object members => refuses_lift fun cause => by simp [ofJson, leaves, patternFault?]
  | .bool b => refuses_lift fun cause => by simp [ofJson, leaves, patternFault?]
  | .number n => refuses_lift fun cause => by
    rw [ofJson, leaves, List.findSome?_singleton, patternFault?]
    cases n.int64? <;> simp

/-- The same for lists. -/
theorem ofPatterns_refuses : ∀ items : List Json, Refuses (ofPatterns items) (leavesAll items)
  | [] => refuses_pure []
  | item :: items => (ofPattern_refuses item).bind fun t => (ofPatterns_refuses items).map (t :: ·)

end

end Term

end TripleStore
