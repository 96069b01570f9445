import Mathlib.Data.Set.Function
import TripleStore.Json.Terms
import TripleStore.Proofs.Lists
import TripleStore.Proofs.Scope

/-!
# Mentions of variables

A pattern mentions a variable by a text that begins with a question mark (`Mention`). A scope gives out a variable for
each mention, one after the other (`Scope.GivesOut`). From the empty scope on, two mentions get the same variable
exactly when both mention the same name, and the variables are numbered without gaps in the order in which they are
mentioned first (`Scope.numbered_of_givesOut`). Other names get the same variables, if different names stay different
(`Scope.givesOut_rename`).
-/

namespace TripleStore

/-- A mention of a variable in a pattern. -/
inductive Mention where
  /-- The variable of a name. -/
  | named (name : String)
  /-- A new variable. -/
  | anonymous

namespace Mention

/-- The name that is mentioned, if there is one. -/
def name? : Mention → Option String
  | named name => some name
  | anonymous => none

/-- The text of a mention. -/
def text : Mention → String
  | named name => "?" ++ name
  | anonymous => "?_"

/-- The text of the mention is not read as anything else: a name is not empty, and not that of new variables. -/
def Proper : Mention → Prop
  | named name => name ≠ "" ∧ name ≠ "_"
  | anonymous => True

/-- The mention of another name in place of each. -/
def rename (f : String → String) : Mention → Mention
  | named name => named (f name)
  | anonymous => anonymous

theorem name?_eq_some_iff {m : Mention} {name : String} : m.name? = some name ↔ m = named name := by
  cases m <;> simp [name?]

theorem toList_text_named (name : String) : (named name).text.toList = '?' :: name.toList := by
  rw [text, String.toList_append]
  rfl

/-- Each text is a single question mark, a mention, or a text that does not begin with a question mark. -/
theorem text_cases (s : String) :
    s = "?" ∨ (∃ m : Mention, m.Proper ∧ m.text = s) ∨ s.toList.head? ≠ some '?' := by
  cases hs : s.toList with
  | nil => exact .inr (.inr (by simp))
  | cons c cs =>
    by_cases hc : c = '?'
    · have htext : (named (String.ofList cs)).text = s := by
        rw [← String.toList_inj, toList_text_named, String.toList_ofList, hs, hc]
      by_cases hempty : cs = []
      · exact .inl (by rw [← htext, hempty]; rfl)
      · by_cases hanonymous : cs = ['_']
        · exact .inr (.inl ⟨anonymous, trivial, by rw [← htext, hanonymous]; rfl⟩)
        · refine .inr (.inl ⟨named (String.ofList cs), ⟨fun h => hempty ?_, fun h => hanonymous ?_⟩, htext⟩)
          · rw [← String.toList_ofList (l := cs), h]
            rfl
          · rw [← String.toList_ofList (l := cs), h]
            rfl
    · exact .inr (.inr (by simpa using hc))

theorem Proper.text_ne {m : Mention} (h : m.Proper) : m.text ≠ "?" := by
  cases m with
  | anonymous => simp [text]
  | named name =>
    intro htext
    have hlist : name.toList = [] := by
      rw [← String.toList_inj, toList_text_named] at htext
      exact (List.cons.inj htext).2
    exact h.1 (String.toList_inj.1 hlist)

/-- Different mentions have different texts. -/
theorem Proper.text_inj {m m' : Mention} (h : m.Proper) (h' : m'.Proper) (htext : m.text = m'.text) : m = m' := by
  have hlist {name : String} (heq : (named name).text = anonymous.text) : name = "_" := by
    rw [← String.toList_inj, toList_text_named] at heq
    exact String.toList_inj.1 (List.cons.inj heq).2
  cases m with
  | anonymous =>
    cases m' with
    | anonymous => rfl
    | named name => exact absurd (hlist htext.symm) h'.2
  | named name =>
    cases m' with
    | anonymous => exact absurd (hlist htext) h.2
    | named name' =>
      rw [← String.toList_inj, toList_text_named, toList_text_named] at htext
      rw [String.toList_inj.1 (List.cons.inj htext).2]

theorem head?_text (m : Mention) : m.text.toList.head? = some '?' := by
  cases m with
  | anonymous => rfl
  | named name => rw [toList_text_named, List.head?_cons]

/-- Gives the name in a text another one, if the text is the mention of a name. -/
def renameText (f : String → String) (s : String) : String :=
  match s.toList with
  | ['?'] => s
  | ['?', '_'] => s
  | '?' :: name => "?" ++ f (String.ofList name)
  | _ => s

end Mention

/-- The mentions have these variables: two of them have the same variable exactly when both mention one name, and the
variables are numbered in the order in which they are mentioned first. -/
structure Mention.Numbered (trail : List (Mention × Nat)) (size : Nat) : Prop where
  same : trail.Pairwise fun x y => x.2 = y.2 ↔ ∃ name, x.1 = .named name ∧ y.1 = .named name
  inOrder : (trail.map Prod.snd).eraseDups = List.range size

/-- The names that are mentioned. -/
def Mention.names (trail : List (Mention × Nat)) : Set String := {name | ∃ x ∈ trail, x.1 = .named name}

/-- The names mentioned get other ones: different names stay different, and each is still read as a name. -/
structure Mention.Renaming (f : String → String) (trail : List (Mention × Nat)) : Prop where
  injOn : Set.InjOn f (names trail)
  proper : ∀ x ∈ trail, (x.1.rename f).Proper

/-- The variable of a mention. -/
def Scope.mention : Mention → Scope → Nat × Scope
  | .named name, scope => scope.var name
  | .anonymous, scope => scope.fresh

/-- Reading a mention gives out its variable. -/
theorem Term.ofPatternText_mention {m : Mention} (h : m.Proper) (scope : Scope) :
    (ofPatternText m.text).run scope = .ok (.var (scope.mention m).1, (scope.mention m).2) := by
  cases m with
  | anonymous => rfl
  | named name =>
    have hempty : name.toList ≠ [] := fun hname => h.1 (String.toList_inj.1 hname)
    have hanonymous : name.toList ≠ ['_'] := fun hname => h.2 (String.toList_inj.1 hname)
    rw [ofPatternText, Mention.toList_text_named]
    split
    · simp_all
    · simp_all
    · rename_i heq
      cases heq
      rw [String.ofList_toList]
      rfl
    · simp_all

theorem Term.ofPatternText_plain {s : String} (h : s.toList.head? ≠ some '?') :
    ofPatternText s = pure (.str s) := by
  rw [ofPatternText]
  split <;> simp_all

theorem Mention.renameText_text {m : Mention} (h : m.Proper) (f : String → String) :
    renameText f m.text = (m.rename f).text := by
  cases m with
  | anonymous => rfl
  | named name =>
    have hempty : name.toList ≠ [] := fun hname => h.1 (String.toList_inj.1 hname)
    have hanonymous : name.toList ≠ ['_'] := fun hname => h.2 (String.toList_inj.1 hname)
    rw [renameText, toList_text_named]
    split
    · simp_all
    · simp_all
    · rename_i heq
      cases heq
      rw [String.ofList_toList]
      rfl
    · simp_all

theorem Mention.renameText_plain {s : String} (h : s.toList.head? ≠ some '?') (f : String → String) :
    renameText f s = s := by
  rw [renameText]
  split <;> simp_all

namespace Scope

variable {scope scope' scope'' : Scope} {m : Mention} {v : Nat} {trail trail' : List (Mention × Nat)}

/-- The scope gives out the variables of some mentions, in their order, and is then the second scope. -/
inductive GivesOut : Scope → List (Mention × Nat) → Scope → Prop
  | nil {scope : Scope} : GivesOut scope [] scope
  | cons {scope scope' scope'' : Scope} {m : Mention} {v : Nat} {trail : List (Mention × Nat)} :
      scope.mention m = (v, scope') → GivesOut scope' trail scope'' → GivesOut scope ((m, v) :: trail) scope''

@[simp] theorem givesOut_nil_iff : scope.GivesOut [] scope' ↔ scope = scope' := by
  constructor
  · rintro ⟨⟩
    rfl
  · rintro rfl
    exact .nil

@[simp] theorem givesOut_cons_iff :
    scope.GivesOut ((m, v) :: trail) scope'' ↔
      ∃ scope', scope.mention m = (v, scope') ∧ scope'.GivesOut trail scope'' := by
  constructor
  · rintro (_ | ⟨hm, hrest⟩)
    exact ⟨_, hm, hrest⟩
  · rintro ⟨_, hm, hrest⟩
    exact .cons hm hrest

theorem givesOut_append_iff :
    scope.GivesOut (trail ++ trail') scope'' ↔
      ∃ scope', scope.GivesOut trail scope' ∧ scope'.GivesOut trail' scope'' := by
  induction trail generalizing scope with
  | nil => simp
  | cons x trail ih =>
    obtain ⟨m, v⟩ := x
    simp only [List.cons_append, givesOut_cons_iff, ih]
    constructor
    · rintro ⟨first, hm, middle, htrail, htrail'⟩
      exact ⟨middle, ⟨first, hm, htrail⟩, htrail'⟩
    · rintro ⟨middle, ⟨first, hm, htrail⟩, htrail'⟩
      exact ⟨first, hm, middle, htrail, htrail'⟩

/-- A mention either finds the variable of its name or makes a new one. -/
theorem mention_cases (scope : Scope) (m : Mention) :
    (∃ name v, m = .named name ∧ scope.names[v]? = some (some name) ∧ scope.mention m = (v, scope)) ∨
      (∀ name, m = .named name → some name ∉ scope.names) ∧
        scope.mention m = (scope.size, ⟨scope.names ++ [m.name?]⟩) := by
  cases m with
  | anonymous => exact .inr ⟨fun _ h => (nomatch h), rfl⟩
  | named name =>
    rcases scope.var_cases name with ⟨v, hv, heq⟩ | ⟨hnew, heq⟩
    · exact .inl ⟨name, v, rfl, hv, heq⟩
    · refine .inr ⟨fun other h => ?_, heq⟩
      cases h
      exact hnew

/-! ### Numbers -/

/-- The scope has given out just the variables of some mentions: it has their names, each for one variable. -/
structure Tracks (scope : Scope) (trail : List (Mention × Nat)) : Prop where
  numbered : Mention.Numbered trail scope.size
  names : ∀ x ∈ trail, scope.names[x.2]? = some x.1.name?
  unique : ∀ {name : String} {v w : Nat}, scope.names[v]? = some (some name) →
    scope.names[w]? = some (some name) → v = w

theorem tracks_empty : Tracks .empty [] := ⟨⟨.nil, rfl⟩, by simp, by simp [empty]⟩

theorem Tracks.lt_size_iff (h : scope.Tracks trail) : v < scope.size ↔ v ∈ trail.map Prod.snd := by
  rw [← List.mem_eraseDups, h.numbered.inOrder, List.mem_range]

/-- The scope keeps track of one more mention. -/
theorem Tracks.mention (h : scope.Tracks trail) (hm : scope.mention m = (v, scope')) :
    scope'.Tracks (trail ++ [(m, v)]) := by
  rcases scope.mention_cases m with ⟨name, v', rfl, hv, heq⟩ | ⟨hnew, heq⟩
  · -- a name that has been mentioned before
    cases heq.symm.trans hm
    have hlt : v < scope.size := (List.getElem?_eq_some_iff.1 hv).1
    refine ⟨⟨List.pairwise_append.2 ⟨h.numbered.same, List.pairwise_singleton _ _, ?_⟩, ?_⟩, ?_, h.unique⟩
    · intro x hx y hy
      obtain rfl := List.mem_singleton.1 hy
      constructor
      · rintro rfl
        have hname : x.1.name? = some name := Option.some.inj ((h.names x hx).symm.trans hv)
        exact ⟨name, Mention.name?_eq_some_iff.1 hname, rfl⟩
      · rintro ⟨_, hx', ⟨⟩⟩
        exact h.unique (by rw [h.names x hx, hx', Mention.name?]) hv
    · rw [List.map_append, List.map_singleton, eraseDups_concat_of_mem (h.lt_size_iff.1 hlt), h.numbered.inOrder]
    · rw [List.forall_mem_append]
      refine ⟨h.names, fun x hx => ?_⟩
      obtain rfl := List.mem_singleton.1 hx
      exact hv
  · -- a variable that is new
    cases heq.symm.trans hm
    have hold : ∀ x ∈ trail, x.2 < scope.size := fun x hx => h.lt_size_iff.2 (List.mem_map_of_mem hx)
    refine ⟨⟨List.pairwise_append.2 ⟨h.numbered.same, List.pairwise_singleton _ _, ?_⟩, ?_⟩, ?_, ?_⟩
    · intro x hx y hy
      obtain rfl := List.mem_singleton.1 hy
      refine iff_of_false (hold x hx).ne ?_
      rintro ⟨name, hx', hm'⟩
      have hname : scope.names[x.2]? = some (some name) := by rw [h.names x hx, hx', Mention.name?]
      exact hnew name hm' (List.mem_of_getElem? hname)
    · have hsize : Scope.size ⟨scope.names ++ [m.name?]⟩ = scope.size + 1 := List.length_append
      have hnext : scope.size ∉ trail.map Prod.snd := fun hmem => (h.lt_size_iff.2 hmem).ne rfl
      rw [List.map_append, List.map_singleton, eraseDups_concat_of_notMem hnext, h.numbered.inOrder, hsize,
        List.range_succ]
    · rw [List.forall_mem_append]
      refine ⟨fun x hx => ?_, fun x hx => ?_⟩
      · rw [List.getElem?_append_left (hold x hx)]
        exact h.names x hx
      · obtain rfl := List.mem_singleton.1 hx
        exact List.getElem?_concat_length
    · have hcases {name : String} {u : Nat} (hu : (scope.names ++ [m.name?])[u]? = some (some name)) :
          scope.names[u]? = some (some name) ∨ u = scope.size ∧ m = .named name :=
        (getElem?_concat_eq_some_iff.1 hu).imp_right fun h => ⟨h.1, Mention.name?_eq_some_iff.1 h.2⟩
      intro name u w hu hw
      rcases hcases hu with hold | ⟨rfl, hm⟩ <;> rcases hcases hw with hold' | ⟨rfl, hm'⟩
      · exact h.unique hold hold'
      · exact absurd (List.mem_of_getElem? hold) (hnew name hm')
      · exact absurd (List.mem_of_getElem? hold') (hnew name hm)
      · rfl

theorem Tracks.givesOut (h : scope.Tracks trail) (hgives : scope.GivesOut trail' scope') :
    scope'.Tracks (trail ++ trail') := by
  induction hgives generalizing trail with
  | nil => rwa [List.append_nil]
  | cons hm _ ih =>
    have hrest := ih (h.mention hm)
    rwa [List.append_assoc] at hrest

/-- **The variables that are given out from the empty scope on** are numbered by first mention. -/
theorem numbered_of_givesOut (h : Scope.GivesOut .empty trail scope) : Mention.Numbered trail scope.size :=
  (tracks_empty.givesOut h).numbered

/-! ### Other names -/

/-- The scope with another name in place of each. -/
def rename (f : String → String) (scope : Scope) : Scope := ⟨scope.names.map (Option.map f)⟩

theorem size_rename (f : String → String) (scope : Scope) : (scope.rename f).size = scope.size := List.length_map _

theorem named_rename (f : String → String) (scope : Scope) :
    (scope.rename f).named = scope.named.map (Prod.map f id) := by
  rw [named, named, rename, List.zipIdx_map, List.filterMap_map, List.map_filterMap]
  refine List.filterMap_congr fun x _ => ?_
  obtain ⟨name?, v⟩ := x
  cases name? <;> rfl

theorem var_rename {f : String → String} {name : String}
    (hf : ∀ other, some other ∈ scope.names → f other = f name → other = name) :
    (scope.rename f).var (f name) = ((scope.var name).1, (scope.var name).2.rename f) := by
  have hfind : (scope.names.map (Option.map f)).findIdx? (· == some (f name))
      = scope.names.findIdx? (· == some name) := by
    rw [List.findIdx?_map]
    refine findIdx?_congr fun name? hmem => ?_
    cases name? with
    | none => rfl
    | some other =>
      have hiff : f other = f name ↔ other = name := ⟨hf other hmem, fun h => h ▸ rfl⟩
      simp [hiff]
  rw [var, var, rename, hfind]
  split
  · rfl
  · simp [size, rename]

theorem mention_rename {f : String → String}
    (hf : ∀ name other, m = .named name → some other ∈ scope.names → f other = f name → other = name) :
    (scope.rename f).mention (m.rename f) = ((scope.mention m).1, (scope.mention m).2.rename f) := by
  cases m with
  | named name => exact var_rename (hf name · rfl)
  | anonymous => simp [mention, Mention.rename, fresh, rename, size]

theorem mem_names_of_mention (hm : scope.mention m = (v, scope')) {name : String} (h : some name ∈ scope'.names) :
    some name ∈ scope.names ∨ m = .named name := by
  rcases scope.mention_cases m with ⟨_, _, -, -, heq⟩ | ⟨-, heq⟩
  · cases heq.symm.trans hm
    exact .inl h
  · cases heq.symm.trans hm
    rcases List.mem_append.1 h with h | h
    · exact .inl h
    · exact .inr (Mention.name?_eq_some_iff.1 (List.mem_singleton.1 h).symm)

/-- Other names get the same variables, if the renaming is one-to-one on all names that come up. -/
theorem GivesOut.rename {f : String → String} {names : Set String} (hf : Set.InjOn f names)
    (h : scope.GivesOut trail scope') (hscope : ∀ name, some name ∈ scope.names → name ∈ names)
    (htrail : ∀ x ∈ trail, ∀ name, x.1 = .named name → name ∈ names) :
    (scope.rename f).GivesOut (trail.map (Prod.map (Mention.rename f) id)) (scope'.rename f) := by
  induction h with
  | nil => exact .nil
  | cons hm _ ih =>
    obtain ⟨hfirst, htrail⟩ := List.forall_mem_cons.1 htrail
    refine .cons ?_ (ih (fun name hname => ?_) htrail)
    · rw [mention_rename, hm]
      · rfl
      · exact fun name other hname hother heq => hf (hscope other hother) (hfirst name hname) heq
    · rcases mem_names_of_mention hm hname with hname | hname
      · exact hscope name hname
      · exact hfirst name hname

/-- **Other names get the same variables** from the empty scope on. -/
theorem givesOut_rename {f : String → String} (hf : Mention.Renaming f trail) (h : Scope.GivesOut .empty trail scope) :
    Scope.GivesOut .empty (trail.map (Prod.map (Mention.rename f) id)) (scope.rename f) :=
  h.rename hf.injOn (fun _ h => nomatch h) fun x hx _ hname => ⟨x, hx, hname⟩

end Scope

end TripleStore
