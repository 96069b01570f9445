import TripleStore.Proofs.Store.Candidates

/-!
# The recursive resolver

What a search is to find, said without a stack: `Store.resolve` meets goals one after the other by recursion
on them, and a rule by resolving its whole body before the goals that come after. A bound on how deep rules
may be used inside each other makes the recursion end; a resolution that meets it is `cut` there, and what it
found before does not depend on it (`resolve_le`).

Resolutions are lists of answers that end in one of three ways. They are put after each other (`andThen`) and
inside each other (`bind`), and obey the laws that one expects.
-/

namespace TripleStore

/-- Why a resolution has no more answers. -/
inductive Resolution.Stop where
  /-- Everything was tried. -/
  | exhausted
  /-- A check could not be decided. -/
  | error (e : Uninstantiated)
  /-- The bound on the depth was met. -/
  | cut

/-- The answers that were found, in order, and why there are no more. -/
structure Resolution (α : Type) where
  /-- The answers in order. -/
  answers : List α
  /-- Why there are no more. -/
  stop : Resolution.Stop

namespace Resolution

variable {α β γ : Type}

/-- No answer. -/
def empty : Resolution α := ⟨[], .exhausted⟩

/-- One answer. -/
def answer (a : α) : Resolution α := ⟨[a], .exhausted⟩

/-- The answers of one resolution and, if that was exhausted, those of another. -/
def andThen (A B : Resolution α) : Resolution α :=
  match A.stop with
  | .exhausted => ⟨A.answers ++ B.answers, B.stop⟩
  | _ => A

/-- The answers of some resolutions, one after the other. -/
def concat (As : List (Resolution α)) : Resolution α := As.foldr andThen empty

/-- Goes on from each answer in turn. -/
def bind (A : Resolution α) (f : α → Resolution β) : Resolution β :=
  A.answers.foldr (fun a later => (f a).andThen later) ⟨[], A.stop⟩

/-! ### Laws -/

@[simp] theorem andThen_empty (A : Resolution α) : A.andThen empty = A := by
  obtain ⟨answers, stop⟩ := A
  cases stop <;> simp [andThen, empty]

theorem andThen_assoc (A B C : Resolution α) : (A.andThen B).andThen C = A.andThen (B.andThen C) := by
  obtain ⟨answers, stop⟩ := A
  cases stop with
  | exhausted =>
    obtain ⟨answers', stop'⟩ := B
    cases stop' <;> simp [andThen]
  | error e => rfl
  | cut => rfl

@[simp] theorem answer_bind (a : α) (f : α → Resolution β) : (answer a).bind f = f a :=
  andThen_empty (f a)

@[simp] theorem bind_answer (A : Resolution α) : A.bind answer = A := by
  obtain ⟨answers, stop⟩ := A
  induction answers with
  | nil => rfl
  | cons a answers ih =>
    show (answer a).andThen (bind ⟨answers, stop⟩ answer) = ⟨a :: answers, stop⟩
    rw [ih]
    rfl

theorem foldr_andThen (f : α → Resolution β) (as : List α) (A B : Resolution β) :
    (as.foldr (fun a later => (f a).andThen later) A).andThen B
      = as.foldr (fun a later => (f a).andThen later) (A.andThen B) := by
  induction as with
  | nil => rfl
  | cons a as ih => rw [List.foldr_cons, andThen_assoc, ih, List.foldr_cons]

theorem andThen_bind (A B : Resolution α) (f : α → Resolution β) :
    (A.andThen B).bind f = (A.bind f).andThen (B.bind f) := by
  rw [bind, bind, foldr_andThen]
  obtain ⟨answers, stop⟩ := A
  cases stop with
  | exhausted => exact List.foldr_append
  | error e => rfl
  | cut => rfl

theorem bind_bind (A : Resolution α) (f : α → Resolution β) (g : β → Resolution γ) :
    (A.bind f).bind g = A.bind fun a => (f a).bind g := by
  obtain ⟨answers, stop⟩ := A
  induction answers with
  | nil => rfl
  | cons a answers ih =>
    show ((f a).andThen (bind ⟨answers, stop⟩ f)).bind g = _
    rw [andThen_bind, ih]
    rfl

theorem concat_bind (As : List (Resolution α)) (f : α → Resolution β) :
    (concat As).bind f = concat (As.map fun A => A.bind f) := by
  induction As with
  | nil => rfl
  | cons A As ih =>
    show (A.andThen (concat As)).bind f = (A.bind f).andThen (concat (As.map fun A => A.bind f))
    rw [andThen_bind, ih]

/-! ### Exhausted resolutions -/

theorem andThen_of_exhausted {A : Resolution α} (hA : A.stop = .exhausted) (B : Resolution α) :
    A.andThen B = ⟨A.answers ++ B.answers, B.stop⟩ := by
  rw [andThen, hA]

theorem exhausted_of_andThen {A B : Resolution α} (h : (A.andThen B).stop = .exhausted) :
    A.stop = .exhausted ∧ B.stop = .exhausted := by
  cases hA : A.stop with
  | exhausted => exact ⟨rfl, by rwa [andThen_of_exhausted hA] at h⟩
  | error e => rw [andThen, hA, hA] at h; cases h
  | cut => rw [andThen, hA, hA] at h; cases h

theorem concat_exhausted_iff {As : List (Resolution α)} :
    (concat As).stop = .exhausted ↔ ∀ A ∈ As, A.stop = .exhausted := by
  induction As with
  | nil => simp [concat, empty]
  | cons A As ih =>
    rw [List.forall_mem_cons, ← ih]
    refine ⟨exhausted_of_andThen, fun ⟨hA, hAs⟩ => ?_⟩
    show (A.andThen (concat As)).stop = .exhausted
    rw [andThen_of_exhausted hA, hAs]

theorem answers_concat {As : List (Resolution α)} (h : (concat As).stop = .exhausted) :
    (concat As).answers = As.flatMap answers := by
  induction As with
  | nil => rfl
  | cons A As ih =>
    obtain ⟨hA, hAs⟩ := exhausted_of_andThen h
    show (A.andThen (concat As)).answers = _
    rw [andThen_of_exhausted hA, ih hAs, List.flatMap_cons]

/-- Going on from the answers of an exhausted resolution. -/
theorem bind_eq_concat {A : Resolution α} (hA : A.stop = .exhausted) (f : α → Resolution β) :
    A.bind f = concat (A.answers.map f) := by
  rw [bind, concat, hA, List.foldr_map]
  rfl

theorem exhausted_of_bind {A : Resolution α} {f : α → Resolution β} (h : (A.bind f).stop = .exhausted) :
    A.stop = .exhausted := by
  obtain ⟨answers, stop⟩ := A
  induction answers with
  | nil => exact h
  | cons a answers ih => exact ih (exhausted_of_andThen h).2

/-! ### Resolutions that were cut earlier -/

/-- The two resolutions are the same, or the first was cut after some of the answers of the second. -/
def Le (A B : Resolution α) : Prop := A = B ∨ A.stop = .cut ∧ A.answers <+: B.answers

theorem Le.refl (A : Resolution α) : A.Le A := .inl rfl

theorem cut_le (A : Resolution α) : Le ⟨[], .cut⟩ A := .inr ⟨rfl, List.nil_prefix⟩

theorem Le.andThen {A A' B B' : Resolution α} (hA : A.Le A') (hB : B.Le B') :
    (A.andThen B).Le (A'.andThen B') := by
  rcases hA with rfl | ⟨hcut, hprefix⟩
  · obtain ⟨answers, stop⟩ := A
    cases stop with
    | exhausted =>
      rcases hB with rfl | ⟨hcut, hprefix⟩
      · exact .refl _
      · exact .inr ⟨hcut, (List.prefix_append_right_inj answers).2 hprefix⟩
    | error e => exact .refl _
    | cut => exact .refl _
  · have heq : A.andThen B = A := by rw [Resolution.andThen, hcut]
    rw [heq]
    refine .inr ⟨hcut, hprefix.trans ?_⟩
    obtain ⟨answers, stop⟩ := A'
    cases stop with
    | exhausted => exact List.prefix_append _ _
    | error e => exact List.prefix_rfl
    | cut => exact List.prefix_rfl

theorem Le.foldr {f f' : α → Resolution β} (hf : ∀ a, (f a).Le (f' a)) {B B' : Resolution β} (hB : B.Le B')
    (as : List α) : (as.foldr (fun a later => (f a).andThen later) B).Le
      (as.foldr (fun a later => (f' a).andThen later) B') := by
  induction as with
  | nil => exact hB
  | cons a as ih => exact (hf a).andThen ih

theorem Le.bind {A A' : Resolution α} (hA : A.Le A') {f f' : α → Resolution β} (hf : ∀ a, (f a).Le (f' a)) :
    (A.bind f).Le (A'.bind f') := by
  rcases hA with rfl | ⟨hcut, later, hlater⟩
  · exact .foldr hf (.refl _) _
  · rw [Resolution.bind, Resolution.bind, ← hlater, List.foldr_append, hcut]
    exact .foldr hf (cut_le _) _

theorem Le.concat {f f' : β → Resolution α} (hf : ∀ b, (f b).Le (f' b)) (bs : List β) :
    (Resolution.concat (bs.map f)).Le (Resolution.concat (bs.map f')) := by
  induction bs with
  | nil => exact .refl _
  | cons b bs ih => exact (hf b).andThen ih

end Resolution

/-! ### Resolving goals -/

namespace Store

/-- Uses an entry for a pattern: the body of a rule is resolved by `call`, and `rest` goes on from each of
its answers. An answer comes with the number from which the next rule gets its variables. -/
def resolveEntry (call : Bindings → Nat → List Goal → Resolution (Bindings × Nat)) (s : Bindings) (n : Nat)
    (t : Triple) (rest : Bindings × Nat → Resolution (Bindings × Nat)) (e : Entry) : Resolution (Bindings × Nat) :=
  match s.unifyTriple t (e.headAt n) with
  | none => .empty
  | some s' =>
    match e with
    | .fact .. => rest (s', n)
    | .rule r => (call s' (n + r.varCount) (r.bodyAt n)).bind rest

theorem resolveEntry_bind (call : Bindings → Nat → List Goal → Resolution (Bindings × Nat)) (s : Bindings)
    (n : Nat) (t : Triple) (rest f : Bindings × Nat → Resolution (Bindings × Nat)) (e : Entry) :
    (resolveEntry call s n t rest e).bind f = resolveEntry call s n t (fun a => (rest a).bind f) e := by
  rw [resolveEntry, resolveEntry]
  split
  · rfl
  · cases e with
    | fact u ground => rfl
    | rule r => exact Resolution.bind_bind _ _ _

/-- Tries the entry at a position. -/
def resolveAt (st : Store) (call : Bindings → Nat → List Goal → Resolution (Bindings × Nat)) (s : Bindings)
    (n : Nat) (t : Triple) (rest : Bindings × Nat → Resolution (Bindings × Nat)) (p : Nat) :
    Resolution (Bindings × Nat) :=
  match st.get? p with
  | some e => resolveEntry call s n t rest e
  | none => .empty

theorem resolveAt_bind (st : Store) (call : Bindings → Nat → List Goal → Resolution (Bindings × Nat))
    (s : Bindings) (n : Nat) (t : Triple) (rest f : Bindings × Nat → Resolution (Bindings × Nat)) (p : Nat) :
    (st.resolveAt call s n t rest p).bind f = st.resolveAt call s n t (fun a => (rest a).bind f) p := by
  rw [resolveAt, resolveAt]
  split
  · exact resolveEntry_bind _ _ _ _ _ _ _
  · rfl

/-- Trying every position is trying every entry. -/
theorem map_resolveAt_candidates (st : Store) (call : Bindings → Nat → List Goal → Resolution (Bindings × Nat))
    (s : Bindings) (n : Nat) (t : Triple) (rest : Bindings × Nat → Resolution (Bindings × Nat)) :
    (st.candidates .fullScan s t).map (st.resolveAt call s n t rest)
      = st.entries.toList.map (resolveEntry call s n t rest) := by
  refine List.ext_getElem (by simp [candidates, positions, size]) fun p h h' => ?_
  rw [List.length_map, Array.length_toList] at h'
  have hp : st.get? p = some st.entries[p] := Array.getElem?_eq_getElem h'
  simp [candidates, positions, resolveAt, hp]

/-- Resolves goals from the left; `call` resolves the bodies of rules. -/
def resolveGoals (st : Store) (mode : Retrieval)
    (call : Bindings → Nat → List Goal → Resolution (Bindings × Nat)) :
    List Goal → Bindings × Nat → Resolution (Bindings × Nat)
  | [], a => .answer a
  | .check c :: rest, (s, n) =>
    match c.run s with
    | .ok true => resolveGoals st mode call rest (s, n)
    | .ok false => .empty
    | .error e => ⟨[], .error e⟩
  | .pattern t :: rest, (s, n) =>
    .concat ((st.candidates mode s t).map (st.resolveAt call s n t (resolveGoals st mode call rest)))

/-- **The recursive resolver**, with rules used at most `depth` deep inside each other. -/
def resolve (st : Store) (mode : Retrieval) :
    (depth : Nat) → Bindings → Nat → List Goal → Resolution (Bindings × Nat)
  | 0, _, _, _ => ⟨[], .cut⟩
  | depth + 1, s, n, goals => resolveGoals st mode (resolve st mode depth) goals (s, n)

/-! ### Related resolutions -/

section Related

variable {R : Resolution (Bindings × Nat) → Resolution (Bindings × Nat) → Prop}
  {call call' : Bindings → Nat → List Goal → Resolution (Bindings × Nat)}

/-- What an entry is used for is related when the bodies of rules and what goes on from there are. -/
theorem resolveEntry_rel (hrefl : ∀ A, R A A)
    (hbind : ∀ {A A' f f'}, R A A' → (∀ a, R (f a) (f' a)) → R (A.bind f) (A'.bind f'))
    (hcall : ∀ s n goals, R (call s n goals) (call' s n goals))
    {rest rest' : Bindings × Nat → Resolution (Bindings × Nat)} (hrest : ∀ a, R (rest a) (rest' a))
    (s : Bindings) (n : Nat) (t : Triple) (e : Entry) :
    R (resolveEntry call s n t rest e) (resolveEntry call' s n t rest' e) := by
  rw [resolveEntry, resolveEntry]
  split
  · exact hrefl _
  · cases e with
    | fact u ground => exact hrest _
    | rule r => exact hbind (hcall _ _ _) hrest

/-- What is found for goals is related when what the candidates of a pattern give is. -/
theorem resolveGoals_rel {st st' : Store} {mode mode' : Retrieval} (hrefl : ∀ A, R A A)
    (hpattern : ∀ s n t {rest rest'}, (∀ a, R (rest a) (rest' a)) →
      R (.concat ((st.candidates mode s t).map (st.resolveAt call s n t rest)))
        (.concat ((st'.candidates mode' s t).map (st'.resolveAt call' s n t rest')))) :
    ∀ (goals : List Goal) (a : Bindings × Nat),
      R (st.resolveGoals mode call goals a) (st'.resolveGoals mode' call' goals a) := by
  intro goals
  induction goals with
  | nil => exact fun a => hrefl _
  | cons g rest ih =>
    rintro ⟨s, n⟩
    cases g with
    | check c =>
      rw [resolveGoals, resolveGoals]
      split
      · exact ih _
      · exact hrefl _
      · exact hrefl _
    | pattern t => exact hpattern s n t ih

end Related

theorem resolveGoals_le (st : Store) (mode : Retrieval)
    {call call' : Bindings → Nat → List Goal → Resolution (Bindings × Nat)}
    (hcall : ∀ s n goals, (call s n goals).Le (call' s n goals)) (goals : List Goal) (a : Bindings × Nat) :
    (resolveGoals st mode call goals a).Le (resolveGoals st mode call' goals a) := by
  refine resolveGoals_rel Resolution.Le.refl (fun s n t rest rest' hrest => .concat (fun p => ?_) _) goals a
  rw [resolveAt, resolveAt]
  split
  · exact resolveEntry_rel Resolution.Le.refl (fun hA hf => hA.bind hf) hcall hrest s n t _
  · exact .refl _

/-- **The bound only cuts**: what is found within a bound is found within every larger one, in the same order,
and a resolution that did not meet the bound does not change any more. -/
theorem resolve_le (st : Store) (mode : Retrieval) : ∀ {d d' : Nat}, d ≤ d' → ∀ (s : Bindings) (n : Nat)
    (goals : List Goal), (st.resolve mode d s n goals).Le (st.resolve mode d' s n goals) := by
  intro d
  induction d with
  | zero => exact fun _ _ _ _ => Resolution.cut_le _
  | succ d ih =>
    intro d' hd s n goals
    obtain ⟨d', rfl⟩ : ∃ k, d' = k + 1 := ⟨d' - 1, by omega⟩
    exact resolveGoals_le st mode (ih (by omega)) goals (s, n)

/-- A resolution that is exhausted does not change any more. -/
theorem resolve_eq_of_exhausted {st : Store} {mode : Retrieval} {d d' : Nat} {s : Bindings} {n : Nat}
    {goals : List Goal} (h : (st.resolve mode d s n goals).stop = .exhausted) (hd : d ≤ d') :
    st.resolve mode d' s n goals = st.resolve mode d s n goals := by
  rcases resolve_le st mode hd s n goals with heq | ⟨hcut, -⟩
  · exact heq.symm
  · rw [h] at hcut
    cases hcut

end Store

end TripleStore
