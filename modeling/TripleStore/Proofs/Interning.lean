import Std.Data.HashMap.Lemmas
import TripleStore.Proofs.Mentions

/-!
# Interning

From the empty scope on, any mentions get their variables one to one: the variables are numbered in the order of their
first use, equal names have the same variable, and each mention without a name has one of its own
(`Mention.Interned`). A scope that keeps a table of its names beside their list (`TabledScope`) need not search the
list. The table stays inverse to the list with each variable that is given out, so the variables are the same
(`TabledScope.mention_toScope`). Both hold after every history of mentions (**`interned_giveAll`**).
-/

namespace TripleStore

/-! ### Histories -/

namespace Mention

variable {σ τ : Type}

/-- The variables that some mentions get, one after the other, and what is left of the giver afterwards. -/
def giveAll (give : Mention → σ → Nat × σ) : List Mention → σ → List Nat × σ
  | [], s => ([], s)
  | m :: ms, s =>
    let (v, s') := give m s
    let (vs, s'') := giveAll give ms s'
    (v :: vs, s'')

/-- Givers that give out the same variables one by one do so for all mentions. -/
theorem giveAll_map {give : Mention → σ → Nat × σ} {give' : Mention → τ → Nat × τ} {f : σ → τ}
    (h : ∀ m s, give' m (f s) = Prod.map id f (give m s)) (ms : List Mention) (s : σ) :
    giveAll give' ms (f s) = Prod.map id f (giveAll give ms s) := by
  induction ms generalizing s with
  | nil => rfl
  | cons m ms ih =>
    simp only [giveAll, h, ih, Prod.map]
    rfl

theorem length_giveAll (give : Mention → σ → Nat × σ) (ms : List Mention) (s : σ) :
    (giveAll give ms s).1.length = ms.length := by
  induction ms generalizing s with
  | nil => rfl
  | cons m ms ih => exact congrArg (· + 1) (ih (give m s).2)

/-- The mentions have got these variables one to one, and the scope has kept their names. -/
structure Interned (ms : List Mention) (vs : List Nat) (scope : Scope) : Prop where
  /-- Each mention has a variable. -/
  length_eq : vs.length = ms.length
  /-- The variables are numbered from zero on without gaps, in the order of their first use. -/
  inOrder : vs.eraseDups = List.range scope.size
  /-- Two mentions of names have the same variable exactly when the names are equal. -/
  same : ∀ (i j : Nat) (name name' : String), ms[i]? = some (.named name) → ms[j]? = some (.named name') →
    (vs[i]? = vs[j]? ↔ name = name')
  /-- A mention without a name shares its variable with no other mention. -/
  apart : ∀ i j : Nat, i ≠ j → ms[i]? = some .anonymous → j < ms.length → vs[i]? ≠ vs[j]?
  /-- The names are listed once each, in the order in which they are mentioned first. -/
  names : scope.named.map Prod.fst = (ms.filterMap name?).eraseDups
  /-- A name is listed with the variable that its mentions have got. -/
  named : ∀ (name : String) (v : Nat), (name, v) ∈ scope.named ↔ (Mention.named name, v) ∈ ms.zip vs

/-- Different places in a numbered trail have the same variable exactly when both mention one name. -/
theorem Numbered.eq_iff {trail : List (Mention × Nat)} {size : Nat} (h : Numbered trail size) {i j : Nat}
    {x y : Mention × Nat} (hij : i ≠ j) (hx : trail[i]? = some x) (hy : trail[j]? = some y) :
    x.2 = y.2 ↔ ∃ name, x.1 = .named name ∧ y.1 = .named name := by
  obtain ⟨hi, rfl⟩ := List.getElem?_eq_some_iff.1 hx
  obtain ⟨hj, rfl⟩ := List.getElem?_eq_some_iff.1 hy
  have hsame := List.pairwise_iff_getElem.1 h.same
  rcases Nat.lt_or_gt_of_ne hij with hlt | hgt
  · exact hsame i j hi hj hlt
  · rw [eq_comm, hsame j i hj hi hgt]
    exact exists_congr fun name => and_comm

end Mention

namespace Scope

variable {scope scope' : Scope} {trail : List (Mention × Nat)} {name : String} {v : Nat}

theorem givesOut_giveAll (ms : List Mention) (scope : Scope) :
    scope.GivesOut (ms.zip (Mention.giveAll mention ms scope).1) (Mention.giveAll mention ms scope).2 := by
  induction ms generalizing scope with
  | nil => exact .nil
  | cons m ms ih => exact .cons rfl (ih (scope.mention m).2)

/-- A mention appends its name to the names of the scope, if it is new. -/
theorem filterMap_names_mention {done : List String} (hdone : scope.names.filterMap id = done.eraseDups) (m : Mention) :
    (scope.mention m).2.names.filterMap id = (done ++ m.name?.toList).eraseDups := by
  have hmem (name : String) : name ∈ done ↔ some name ∈ scope.names := by
    rw [← List.mem_eraseDups, ← hdone, List.mem_filterMap]
    simp
  rcases scope.mention_cases m with ⟨name, v, rfl, hv, heq⟩ | ⟨hnew, heq⟩
  · have hold : name ∈ done := (hmem name).2 (List.mem_of_getElem? hv)
    rw [heq, hdone, Mention.name?, Option.toList_some, eraseDups_concat_of_mem hold]
  · rw [heq, List.filterMap_append, hdone]
    cases m with
    | anonymous => simp [Mention.name?]
    | named name =>
      have hnew : name ∉ done := mt (hmem name).1 (hnew name rfl)
      rw [Mention.name?, Option.toList_some, eraseDups_concat_of_notMem hnew]
      rfl

/-- The names of a scope are those that have been mentioned, in the order in which they are mentioned first. -/
theorem GivesOut.filterMap_names (h : scope.GivesOut trail scope') (done : List String)
    (hdone : scope.names.filterMap id = done.eraseDups) :
    scope'.names.filterMap id = (done ++ trail.filterMap fun x => x.1.name?).eraseDups := by
  induction h generalizing done with
  | nil => rwa [List.filterMap_nil, List.append_nil]
  | @cons scope middle scope' m v trail hm _ ih =>
    have hmiddle := filterMap_names_mention hdone m
    rw [hm] at hmiddle
    rw [ih _ hmiddle, List.append_assoc]
    cases m <;> rfl

/-- A scope that keeps track of some mentions lists just the names in them, with their variables. -/
theorem Tracks.mem_named_iff (h : scope.Tracks trail) : (name, v) ∈ scope.named ↔ (Mention.named name, v) ∈ trail := by
  rw [Scope.mem_named_iff]
  constructor
  · intro hv
    have hlt : v < scope.size := (List.getElem?_eq_some_iff.1 hv).1
    obtain ⟨⟨m, w⟩, hx, rfl⟩ := List.mem_map.1 (h.lt_size_iff.1 hlt)
    have hname : m.name? = some name := Option.some.inj ((h.names _ hx).symm.trans hv)
    rwa [Mention.name?_eq_some_iff.1 hname] at hx
  · exact h.names _

/-- The variables that some mentions get from the empty scope on are interned. -/
theorem interned_of_givesOut {ms : List Mention} {vs : List Nat} (hlength : vs.length = ms.length)
    (h : Scope.GivesOut .empty (ms.zip vs) scope) : Mention.Interned ms vs scope := by
  have htracks : scope.Tracks (ms.zip vs) := tracks_empty.givesOut h
  have hplace {i : Nat} {m : Mention} (hm : ms[i]? = some m) :
      ∃ v, vs[i]? = some v ∧ (ms.zip vs)[i]? = some (m, v) := by
    have hi : i < vs.length := hlength ▸ (List.getElem?_eq_some_iff.1 hm).1
    exact ⟨vs[i], List.getElem?_eq_getElem hi, List.getElem?_zip_eq_some.2 ⟨hm, List.getElem?_eq_getElem hi⟩⟩
  constructor
  case length_eq => exact hlength
  case inOrder => rw [← htracks.numbered.inOrder, List.map_snd_zip hlength.le]
  case same =>
    intro i j name name' hi hj
    obtain ⟨v, hv, hx⟩ := hplace hi
    obtain ⟨w, hw, hy⟩ := hplace hj
    by_cases hij : i = j
    · subst hij
      cases hi.symm.trans hj
      exact iff_of_true rfl rfl
    · rw [hv, hw, Option.some.injEq, htracks.numbered.eq_iff hij hx hy]
      simp [eq_comm]
  case apart =>
    intro i j hij hi hj
    obtain ⟨v, hv, hx⟩ := hplace hi
    obtain ⟨w, hw, hy⟩ := hplace (List.getElem?_eq_getElem hj)
    rw [hv, hw, Ne, Option.some.injEq, htracks.numbered.eq_iff hij hx hy]
    simp
  case names =>
    have hmentioned : (ms.zip vs).filterMap (fun x => x.1.name?) = ms.filterMap Mention.name? := by
      conv_rhs => rw [← List.map_fst_zip hlength.ge, List.filterMap_map]
      rfl
    rw [map_fst_named, h.filterMap_names [] rfl, hmentioned, List.nil_append]
  case named => exact fun _ _ => htracks.mem_named_iff

end Scope

/-! ### A table of the names -/

/-- The table and the list of names are inverse to each other: the table has just the names in the list, each with its
place. -/
def InverseTo (names : List (Option String)) (table : Std.HashMap String Nat) : Prop :=
  ∀ (name : String) (v : Nat), table[name]? = some v ↔ names[v]? = some (some name)

section InverseTo

variable {names : List (Option String)} {table : Std.HashMap String Nat} {name : String}

/-- A name that the table lacks is entered with the place that it gets at the end of the list. -/
theorem InverseTo.insert (h : InverseTo names table) (hnew : table[name]? = none) :
    InverseTo (names ++ [some name]) (table.insert name names.length) := by
  intro other v
  rw [getElem?_concat_eq_some_iff, ← h, Std.HashMap.getElem?_insert]
  by_cases hother : name = other
  · subst hother
    simp [hnew, eq_comm]
  · simp [hother]

theorem InverseTo.append_none (h : InverseTo names table) : InverseTo (names ++ [none]) table := by
  intro other v
  rw [getElem?_concat_eq_some_iff, ← h]
  simp

end InverseTo

/-- A scope with a table in which the variable of a name is looked up. -/
structure TabledScope extends Scope where
  /-- The variables by name. -/
  table : Std.HashMap String Nat
  inverse : InverseTo names table

namespace TabledScope

/-- No variable has been given out. -/
def empty : TabledScope := ⟨.empty, ∅, fun _ _ => by simp [Scope.empty]⟩

/-- The variable of a name: the one in the table, or else a new one, which is entered. -/
def var (name : String) (scope : TabledScope) : Nat × TabledScope :=
  match h : scope.table[name]? with
  | some v => (v, scope)
  | none =>
    (scope.size,
      ⟨⟨scope.names ++ [some name]⟩, scope.table.insert name scope.size, scope.inverse.insert h⟩)

/-- A new variable without a name, which the table does not have. -/
def fresh (scope : TabledScope) : Nat × TabledScope :=
  (scope.size, ⟨⟨scope.names ++ [none]⟩, scope.table, scope.inverse.append_none⟩)

/-- The variable of a mention. -/
def mention : Mention → TabledScope → Nat × TabledScope
  | .named name, scope => scope.var name
  | .anonymous, scope => scope.fresh

/-- The table has the variable that a search of the list would find. -/
theorem var_toScope (name : String) (scope : TabledScope) :
    scope.toScope.var name = Prod.map id toScope (scope.var name) := by
  rw [var]
  split
  · rename_i v hv
    rcases scope.toScope.var_cases name with ⟨w, hw, heq⟩ | ⟨hnew, -⟩
    · cases hv.symm.trans ((scope.inverse name w).2 hw)
      exact heq
    · exact absurd (List.mem_of_getElem? ((scope.inverse name v).1 hv)) hnew
  · rename_i hnone
    rcases scope.toScope.var_cases name with ⟨w, hw, -⟩ | ⟨-, heq⟩
    · cases hnone.symm.trans ((scope.inverse name w).2 hw)
    · exact heq

/-- The variables are those of the scope without a table. -/
theorem mention_toScope (m : Mention) (scope : TabledScope) :
    scope.toScope.mention m = Prod.map id toScope (scope.mention m) := by
  cases m with
  | named name => exact var_toScope name scope
  | anonymous => rfl

end TabledScope

/-- **Names are interned in every history.** Whatever is mentioned from the empty scope on, the variables are numbered
without gaps in the order of their first use, two names have the same variable exactly when they are equal, a mention
without a name shares its variable with no other one, and the scope lists each name once, with its variable, in the
order in which they are mentioned first. A table of the names gives the same variables, and has just the names that
were mentioned, each with its variable. -/
theorem interned_giveAll (ms : List Mention) : ∃ vs scope, Mention.giveAll Scope.mention ms .empty = (vs, scope) ∧
    Mention.Interned ms vs scope ∧
    ∃ tabled : TabledScope, Mention.giveAll TabledScope.mention ms .empty = (vs, tabled) ∧ tabled.toScope = scope ∧
      ∀ name v, tabled.table[name]? = some v ↔ (Mention.named name, v) ∈ ms.zip vs := by
  have hinterned := Scope.interned_of_givesOut (Mention.length_giveAll _ ms _) (Scope.givesOut_giveAll ms .empty)
  -- one history of the scope with a table, of which the other scope is a part
  have htabled : Mention.giveAll Scope.mention ms .empty
      = Prod.map id TabledScope.toScope (Mention.giveAll TabledScope.mention ms .empty) :=
    Mention.giveAll_map TabledScope.mention_toScope ms .empty
  rw [htabled] at hinterned ⊢
  refine ⟨_, _, rfl, hinterned, _, rfl, rfl, fun name v => ?_⟩
  exact ((TabledScope.inverse _ name v).trans Scope.mem_named_iff.symm).trans (hinterned.named name v)

/-- A name that comes again keeps its variable, and the variable without a name comes between those of two names. -/
example : Mention.giveAll Scope.mention [.named "child", .anonymous, .named "parent", .named "child"] .empty
    = ([0, 1, 2, 0], ⟨[some "child", none, some "parent"]⟩) := by decide

end TripleStore
