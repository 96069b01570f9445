import TripleStore.Proofs.Catalog.Scoping
import TripleStore.Proofs.Json.Distinct

/-!
# The grammar of goals

The forms of goals are told apart by what their values look like (`GoalForm.Shape`). The reader looks at the text, where
names may be repeated and members come in any order; but where no object repeats a name, it finds just the form that the
value has (`GoalForm.ofWritten?_eq_some_iff`). So a text is accepted as a query exactly when its value is an array of
goals whose terms are for patterns (`Query.ofText?_grammar`).
-/

namespace TripleStore

open Json (Written)

/-- A comparison is found by its name. -/
theorem Comparison.ofName?_eq_some_iff {name : String} {op : Comparison} : ofName? name = some op ↔ op.name = name := by
  constructor
  · intro h
    exact beq_iff_eq.1 (List.find?_some (p := fun op : Comparison => op.name == name) h)
  · rintro rfl
    cases op <;> rfl

namespace GoalForm

/-- The value names a comparison: it is its name, or an object whose only member has this name and is `null`. -/
inductive Names : Json → Comparison → Prop
  | text (op : Comparison) : Names (.string op.name) op
  | object (op : Comparison) : Names (.object [(op.name, .null)]) op

/-- The value is a goal of the given form. -/
inductive Shape : Json → GoalForm → Prop
  /-- An array of three terms is a pattern. -/
  | pattern (entity attr value : Json) : Shape (.array [entity, attr, value]) (pattern entity attr value)
  /-- An object in which `neq` is an array of two terms says that they are different. -/
  | distinct {members : Fields Json} {left right : Json} :
      Fields.get? "neq" members = some (.array [left, right]) → Shape (.object members) (distinct left right)
  /-- Any other object in which `compare` names a comparison and `args` is an array of two terms compares them. -/
  | compare {members : Fields Json} {named left right : Json} {op : Comparison} :
      (∀ l r, Fields.get? "neq" members ≠ some (.array [l, r])) →
      Fields.get? "compare" members = some named → Names named op →
      Fields.get? "args" members = some (.array [left, right]) → Shape (.object members) (compare op left right)

variable {room : Nat} {w : Written} {value left right : Json} {op : Comparison} {form : GoalForm}
  {forms : List GoalForm} {name : String} {members : List (List Written.Piece × Written)} {fields : Fields Json}

/-! ### Members -/

theorem member?_cons_of_ne {m : List Written.Piece × Written} (h : Written.text? m.1 ≠ some name) :
    member? name (m :: members) = member? name members := by
  rw [member?, member?, List.filter_cons_of_neg (by simpa using h)]

theorem member?_cons_of_eq {m : List Written.Piece × Written} (h : Written.text? m.1 = some name)
    (hnew : Written.text? m.1 ∉ members.map fun m => Written.text? m.1) :
    member? name (m :: members) = some m.2 := by
  have hnone : members.filter (fun m => Written.text? m.1 = some name) = [] := by
    refine List.filter_eq_nil_iff.2 fun m' hm' heq => hnew ?_
    exact List.mem_map.2 ⟨m', hm', (of_decide_eq_true heq).trans h.symm⟩
  rw [member?, List.filter_cons_of_pos (by simpa using h), hnone]

/-- Where no name is repeated, a member is found by its name. -/
theorem member?_bind_json? (hnames : (members.map fun m => Written.text? m.1).Nodup)
    (h : Written.fields? room members = some fields) (name : String) :
    (member? name members).bind (Written.json? room) = Fields.get? name fields := by
  have hforall := Written.fields?_eq_some_iff.1 h
  clear h
  induction hforall with
  | nil => rfl
  | @cons m f members fields hm _ ih =>
    obtain ⟨hnew, hnames⟩ := List.nodup_cons.1 hnames
    rw [← Prod.mk.eta (p := f), Fields.get?_cons]
    split
    · rename_i heq
      rw [member?_cons_of_eq (heq ▸ hm.1) hnew, Option.bind_some, hm.2]
    · rename_i hne
      rw [member?_cons_of_ne fun h => hne (Option.some.inj (h.symm.trans hm.1)), ih hnames]

/-- Two values are found in an array of two, if there is room for them. -/
theorem pair?_eq_some_iff (hroom : room ≤ Written.maxNesting) (h : w.json? room = some value) :
    pair? w = some (left, right) ↔ value = .array [left, right] := by
  cases Written.denotes_iff.2 h with
  | array _ hvs =>
    have hread {w : Written} {v : Json} (h : w.json? (room - 1) = some v) : w.json? Written.maxNesting = some v :=
      Written.json?_mono ((Nat.sub_le room 1).trans hroom) h
    rcases Written.jsons?_eq_some_iff.1 hvs with _ | ⟨hfirst, _ | ⟨hsecond, _ | ⟨_, _⟩⟩⟩
    · simp [pair?]
    · simp [pair?]
    · simp [pair?, hread hfirst, hread hsecond]
    · simp [pair?]
  | _ => exact iff_of_false nofun nofun

theorem names_string_iff {s : String} : Names (.string s) op ↔ op.name = s := by
  constructor
  · rintro ⟨⟩
    rfl
  · rintro rfl
    exact .text op

theorem names_object_iff : Names (.object fields) op ↔ fields = [(op.name, .null)] := by
  constructor
  · rintro ⟨⟩
    rfl
  · rintro rfl
    exact .object op

theorem comparison?_object_eq_some_iff :
    comparison? (.object members) = some op ↔
      ∃ pieces, members = [(pieces, .null)] ∧ Written.text? pieces = some op.name := by
  constructor
  · intro h
    unfold comparison? at h
    split at h
    · cases ‹Written.object members = .string _›
    · cases ‹Written.object members = .object _›
      obtain ⟨name, hname, hop⟩ := Option.bind_eq_some_iff.1 h
      exact ⟨_, rfl, hname.trans (congrArg some (Comparison.ofName?_eq_some_iff.1 hop).symm)⟩
    · cases h
  · rintro ⟨pieces, rfl, hname⟩
    rw [comparison?, hname, Option.bind_some, Comparison.ofName?_eq_some_iff]

/-- The name of a comparison is found. -/
theorem comparison?_eq_some_iff (hdistinct : w.Distinct) (h : w.json? room = some value) :
    comparison? w = some op ↔ Names value op := by
  cases Written.denotes_iff.2 h with
  | string hs => rw [comparison?, hs, Option.bind_some, Comparison.ofName?_eq_some_iff, names_string_iff]
  | object _ hfields =>
    rw [names_object_iff, Fields.ofList_eq_singleton_iff (Written.nodup_of_fields? hdistinct.1 hfields),
      comparison?_object_eq_some_iff]
    constructor
    · rintro ⟨pieces, rfl, hname⟩
      simpa [Written.fields?, Written.json?, hname, eq_comm] using hfields
    · rintro rfl
      obtain ⟨m, _, ⟨hname, hnull⟩, hrest, rfl⟩ := List.forall₂_cons_right_iff.1 (Written.fields?_eq_some_iff.1 hfields)
      obtain rfl := List.forall₂_nil_right_iff.1 hrest
      obtain ⟨pieces, w⟩ := m
      cases Written.denotes_iff.2 hnull
      exact ⟨pieces, rfl, hname⟩
  | _ => exact iff_of_false (fun h => by cases h) (fun h => by cases h)

theorem mem_of_member? (h : member? name members = some w) : ∃ m ∈ members, m.2 = w := by
  unfold member? at h
  split at h
  · rename_i m hfilter
    exact ⟨m, (List.mem_filter.1 (hfilter ▸ List.mem_singleton_self m)).1, Option.some.inj h⟩
  · cases h

/-- What is read from a member is read from the value of its name. -/
theorem member?_bind_eq_some_iff {α : Type} {read : Written → Option α} {P : Json → α → Prop} {a : α}
    (hread : ∀ {w v}, w.Distinct → w.json? room = some v → (read w = some a ↔ P v a))
    (hdistinct : (Written.object members).Distinct) (h : Written.fields? room members = some fields) (name : String) :
    (member? name members).bind read = some a ↔ ∃ v, Fields.get? name (Fields.ofList fields) = some v ∧ P v a := by
  rw [Fields.get?_ofList (Written.nodup_of_fields? hdistinct.1 h), ← member?_bind_json? hdistinct.1 h]
  cases hmember : member? name members with
  | none => simp
  | some w =>
    obtain ⟨m, hm, rfl⟩ := mem_of_member? hmember
    obtain ⟨f, -, -, hv⟩ := exists_mem_of_forall₂ (Written.fields?_eq_some_iff.1 h) hm
    rw [Option.bind_some, Option.bind_some, hv, hread (Written.distinctMembers_iff.1 hdistinct.2 m hm) hv]
    simp

/-! ### Forms -/

section Object

variable (hroom : room ≤ Written.maxNesting) (hdistinct : (Written.object members).Distinct)
  (h : Written.fields? room members = some fields)

include hroom hdistinct h

theorem member?_pair?_eq_some_iff (name : String) :
    (member? name members).bind pair? = some (left, right) ↔
      Fields.get? name (Fields.ofList fields) = some (.array [left, right]) := by
  have hpair := member?_bind_eq_some_iff (a := (left, right)) (P := fun v a => v = .array [a.1, a.2])
    (fun _ hv => pair?_eq_some_iff hroom hv) hdistinct h name
  simpa using hpair

theorem distinct?_eq_some_iff :
    distinct? members = some form ↔
      ∃ left right, Fields.get? "neq" (Fields.ofList fields) = some (.array [left, right]) ∧
        distinct left right = form := by
  simp only [← member?_pair?_eq_some_iff hroom hdistinct h, distinct?, bind, pure, Option.bind_eq_some_iff, Prod.exists,
    Option.some.injEq]
  constructor
  · rintro ⟨w, hw, left, right, hpair, hform⟩
    exact ⟨left, right, ⟨w, hw, hpair⟩, hform⟩
  · rintro ⟨left, right, ⟨w, hw, hpair⟩, hform⟩
    exact ⟨w, hw, left, right, hpair, hform⟩

theorem compare?_eq_some_iff :
    compare? members = some form ↔
      ∃ named op left right, Fields.get? "compare" (Fields.ofList fields) = some named ∧ Names named op ∧
        Fields.get? "args" (Fields.ofList fields) = some (.array [left, right]) ∧ compare op left right = form := by
  have hop {op : Comparison} := member?_bind_eq_some_iff (a := op) comparison?_eq_some_iff hdistinct h "compare"
  simp only [← member?_pair?_eq_some_iff hroom hdistinct h, compare?, bind, pure, Option.bind_eq_some_iff, Prod.exists,
    Option.some.injEq] at hop ⊢
  constructor
  · rintro ⟨w, hw, op, hcomparison, w', hw', left, right, hpair, hform⟩
    obtain ⟨named, hnamed, hnames⟩ := hop.1 ⟨w, hw, hcomparison⟩
    exact ⟨named, op, left, right, hnamed, hnames, ⟨w', hw', hpair⟩, hform⟩
  · rintro ⟨named, op, left, right, hnamed, hnames, ⟨w', hw', hpair⟩, hform⟩
    obtain ⟨w, hw, hcomparison⟩ := hop.2 ⟨named, hnamed, hnames⟩
    exact ⟨w, hw, op, hcomparison, w', hw', left, right, hpair, hform⟩

/-- The form of an object is that of its value. -/
theorem distinct?_orElse_compare?_eq_some_iff :
    (distinct? members <|> compare? members) = some form ↔ Shape (.object (Fields.ofList fields)) form := by
  have hnot : distinct? members = none ↔
      ∀ left right, Fields.get? "neq" (Fields.ofList fields) ≠ some (.array [left, right]) := by
    rw [Option.eq_none_iff_forall_ne_some]
    constructor
    · exact fun hnone left right hneq => hnone _ ((distinct?_eq_some_iff hroom hdistinct h).2 ⟨left, right, hneq, rfl⟩)
    · intro hnone form hform
      obtain ⟨left, right, hneq, -⟩ := (distinct?_eq_some_iff hroom hdistinct h).1 hform
      exact hnone left right hneq
  rw [Option.orElse_eq_some, hnot, distinct?_eq_some_iff hroom hdistinct h, compare?_eq_some_iff hroom hdistinct h]
  constructor
  · rintro (⟨left, right, hneq, rfl⟩ | ⟨hnone, named, op, left, right, hnamed, hnames, hargs, rfl⟩)
    · exact .distinct hneq
    · exact .compare hnone hnamed hnames hargs
  · intro hshape
    cases hshape with
    | distinct hneq => exact .inl ⟨_, _, hneq, rfl⟩
    | compare hnone hnamed hnames hargs => exact .inr ⟨hnone, _, _, _, _, hnamed, hnames, hargs, rfl⟩

end Object

/-- **The form of a goal** is that of its value, where no name is repeated. -/
theorem ofWritten?_eq_some_iff (hroom : room ≤ Written.maxNesting) (hdistinct : w.Distinct)
    (h : w.json? room = some value) : ofWritten? room w = some form ↔ Shape value form := by
  rw [ofWritten?, h]
  cases Written.denotes_iff.2 h with
  | @array ws vs _ _ =>
    constructor
    · intro hform
      match vs, hform with
      | [entity, attr, value], hform =>
        cases hform
        exact .pattern entity attr value
    · intro hshape
      cases hshape
      rfl
  | object _ hfields =>
    exact distinct?_orElse_compare?_eq_some_iff ((Nat.sub_le room 1).trans hroom) hdistinct hfields
  | _ => exact iff_of_false nofun nofun

theorem forall₂_ofWritten?_iff {ws : List Written} {items : List Json} (hroom : room ≤ Written.maxNesting)
    (hdistinct : ∀ w ∈ ws, w.Distinct) (h : List.Forall₂ (fun w v => w.json? room = some v) ws items) :
    List.Forall₂ (fun w form => ofWritten? room w = some form) ws forms ↔ List.Forall₂ Shape items forms := by
  induction h generalizing forms with
  | nil => rw [List.forall₂_nil_left_iff, List.forall₂_nil_left_iff]
  | cons hv _ ih =>
    obtain ⟨hw, hws⟩ := List.forall_mem_cons.1 hdistinct
    simp only [List.forall₂_cons_left_iff, ofWritten?_eq_some_iff hroom hw hv, ih hws]

/-- The forms of a list of goals are those of its items. -/
theorem listOfWritten?_eq_some_iff (hroom : room ≤ Written.maxNesting) (hdistinct : w.Distinct)
    (h : w.json? room = some value) :
    listOfWritten? room w = some forms ↔ ∃ items, value = .array items ∧ List.Forall₂ Shape items forms := by
  cases Written.denotes_iff.2 h with
  | array _ hvs =>
    rw [listOfWritten?, mapM_eq_some_iff, forall₂_ofWritten?_iff ((Nat.sub_le room 1).trans hroom)
      (Written.distinctAll_iff.1 hdistinct) (Written.jsons?_eq_some_iff.1 hvs)]
    simp
  | _ => exact iff_of_false nofun nofun

end GoalForm

/-! ### Queries -/

namespace Query

open GoalForm

variable {text : String} {w : Written} {value : Json} (hw : Written.ofText? text = some w) (hdistinct : w.Distinct)
  (hvalue : w.json? Written.maxNesting = some value)

include hw hdistinct hvalue

/-- Goals of the right shapes are read as their forms. -/
theorem ofText?_of_shape {items : List Json} {forms : List GoalForm} (hitems : value = .array items)
    (hforms : List.Forall₂ Shape items forms) :
    ofText? text = (ofForms forms).mapError fun cause => .error (.invalid cause) := by
  have hlist : listOfWritten? Written.maxNesting w = some forms :=
    (listOfWritten?_eq_some_iff (Nat.le_refl _) hdistinct hvalue).2 ⟨items, hitems, hforms⟩
  rw [ofText?, hw, Option.bind_some, hlist]

/-- Anything else is not even a list of goals. -/
theorem ofText?_of_not_shape
    (h : ¬∃ items forms, value = .array items ∧ List.Forall₂ Shape items forms) :
    ofText? text = .error (.malformed .queryGoals) := by
  have hlist : listOfWritten? Written.maxNesting w = none := by
    refine Option.eq_none_iff_forall_ne_some.2 fun forms hforms => h ?_
    obtain ⟨items, hitems, hshapes⟩ := (listOfWritten?_eq_some_iff (Nat.le_refl _) hdistinct hvalue).1 hforms
    exact ⟨items, forms, hitems, hshapes⟩
  rw [ofText?, hw, Option.bind_some, hlist]

/-- A query that is accepted is that of its forms. -/
theorem ofText?_eq_ok_iff {query : Query} :
    ofText? text = .ok query ↔
      ∃ items forms, value = .array items ∧ List.Forall₂ Shape items forms ∧ ofForms forms = .ok query := by
  constructor
  · intro h
    by_cases hshape : ∃ items forms, value = .array items ∧ List.Forall₂ Shape items forms
    · obtain ⟨items, forms, hitems, hforms⟩ := hshape
      have heq := ofText?_of_shape hw hdistinct hvalue hitems hforms
      exact ⟨items, forms, hitems, hforms, mapError_eq_ok_iff.1 (heq.symm.trans h)⟩
    · cases (ofText?_of_not_shape hw hdistinct hvalue hshape).symm.trans h
  · rintro ⟨items, forms, hitems, hforms, hquery⟩
    exact (ofText?_of_shape hw hdistinct hvalue hitems hforms).trans (mapError_eq_ok_iff.2 hquery)

/-- **What is accepted as a query.** A text that repeats no name is a query exactly when its value is an array, each of
whose items has the shape of a goal, and whatever is in the terms of these goals is for patterns. The goals of the query
are those of the items, in their order. If an item has no such shape, the text is malformed, whatever the terms of the
others are; and otherwise the cause is what comes first of all that is not for patterns. -/
theorem ofText?_grammar :
    ((∃ query, ofText? text = .ok query) ↔ ∃ items forms, value = .array items ∧ List.Forall₂ Shape items forms ∧
      ∀ leaf ∈ Json.leavesAll (forms.flatMap terms), leaf.patternFault? = none) ∧
    (∀ query, ofText? text = .ok query → ∃ items forms trail, value = .array items ∧ List.Forall₂ Shape items forms ∧
      ScopedBy trail forms query.goals query.scope) ∧
    (ofText? text = .error (.malformed .queryGoals) ↔
      ∀ items, value = .array items → ∃ item ∈ items, ∀ form, ¬Shape item form) ∧
    ∀ items forms cause, value = .array items → List.Forall₂ Shape items forms →
      (ofText? text = .error (.error (.invalid cause)) ↔
        (Json.leavesAll (forms.flatMap terms)).findSome? Json.patternFault? = some cause) := by
  have hok {query : Query} : ofText? text = .ok query ↔ _ := ofText?_eq_ok_iff hw hdistinct hvalue
  have hshaped {items forms} (hitems : value = .array items) (hforms : List.Forall₂ Shape items forms) :=
    ofText?_of_shape hw hdistinct hvalue hitems hforms
  refine ⟨?_, fun query h => ?_, ⟨fun h items hitems => ?_, fun h => ?_⟩, fun items forms cause hitems hforms => ?_⟩
  · simp only [hok, ← exists_ofForms_iff]
    constructor
    · rintro ⟨query, items, forms, hitems, hforms, hquery⟩
      exact ⟨items, forms, hitems, hforms, query, hquery⟩
    · rintro ⟨items, forms, hitems, hforms, query, hquery⟩
      exact ⟨query, items, forms, hitems, hforms, hquery⟩
  · obtain ⟨items, forms, hitems, hforms, hquery⟩ := hok.1 h
    obtain ⟨trail, hscoped, -⟩ := exists_scopedBy hquery
    exact ⟨items, forms, trail, hitems, hforms, hscoped⟩
  · -- if each item had a shape, there would be no such failure
    by_contra hall
    push Not at hall
    obtain ⟨forms, hforms⟩ := exists_forall₂_iff.2 hall
    obtain ⟨cause, -, heq⟩ := mapError_eq_error_iff.1 ((hshaped hitems hforms).symm.trans h)
    cases heq
  · refine ofText?_of_not_shape hw hdistinct hvalue ?_
    rintro ⟨items, forms, hitems, hforms⟩
    obtain ⟨item, hitem, hnone⟩ := h items hitems
    obtain ⟨form, -, hshape⟩ := exists_mem_of_forall₂ hforms hitem
    exact hnone form hshape
  · rw [hshaped hitems hforms, mapError_eq_error_iff, ← ofForms_eq_error_iff]
    simp

end Query

/-- The letters of a text. -/
def Json.Written.letters (s : String) : List Written.Piece := s.toList.map .char

/-- A text between quotes. -/
def Json.Written.quoted (s : String) : Written := .string (letters s)

namespace Query

open GoalForm
open Json.Written (letters quoted)

/-- Something other than `b` that has it as `a`, with a remark. -/
def remarked : Written :=
  .array [.array [quoted "?x", quoted "a", quoted "b"],
    .object [(letters "neq", .array [quoted "?x", quoted "b"]), (letters "remark", .null)]]

/-- A variable without a name, and after it something that is no goal. -/
def misshapen : Written := .array [.array [quoted "?", quoted "a", quoted "b"], .array [quoted "a"]]

/-- A variable without a name, and after it something that is no term. -/
def nameless : Written := .array [.array [quoted "?", quoted "a", .null]]

/-- Remarks are no terms. What has no shape comes before what is no term, even if it stands behind it; and of terms, the
first one counts. -/
theorem ofText?_grammar_remarked :
    (∃ query, ofText? "[[\"?x\",\"a\",\"b\"],\x7b\"neq\":[\"?x\",\"b\"],\"remark\":null\x7d]" = .ok query) ∧
      ofText? "[[\"?\",\"a\",\"b\"],[\"a\"]]" = .error (.malformed .queryGoals) ∧
        ofText? "[[\"?\",\"a\",null]]" = .error (.error (.invalid .missingName)) := by
  have hremarked : remarked.Distinct := by
    have hnames : ([(letters "neq", .array [quoted "?x", quoted "b"]), (letters "remark", Written.null)].map
      fun m => Written.text? m.1).Nodup := by decide
    simpa [remarked, quoted, Written.Distinct, Written.DistinctAll, Written.DistinctMembers] using hnames
  have hmisshapen : misshapen.Distinct := by simp [misshapen, quoted, Written.Distinct, Written.DistinctAll]
  have hnameless : nameless.Distinct := by simp [nameless, quoted, Written.Distinct, Written.DistinctAll]
  have hremarkedValue : remarked.json? Written.maxNesting = some (.array
      [.array [.string "?x", .string "a", .string "b"],
        .object [("neq", .array [.string "?x", .string "b"]), ("remark", .null)]]) := rfl
  have hmisshapenValue : misshapen.json? Written.maxNesting = some (.array
      [.array [.string "?", .string "a", .string "b"], .array [.string "a"]]) := rfl
  have hnamelessValue : nameless.json? Written.maxNesting = some (.array
      [.array [.string "?", .string "a", .null]]) := rfl
  refine ⟨(ofText?_grammar (by cbv) hremarked hremarkedValue).1.2 ⟨_, _, rfl,
    .cons (.pattern _ _ _) (.cons (.distinct rfl) .nil), ?_⟩,
    (ofText?_grammar (by cbv) hmisshapen hmisshapenValue).2.2.1.2 fun items hitems => ?_,
    ((ofText?_grammar (by cbv) hnameless hnamelessValue).2.2.2 _ _ .missingName rfl (.cons (.pattern _ _ _) .nil)).2 ?_⟩
  · simp [terms, Json.leavesAll, Json.leaves, Json.patternFault?]
  · cases hitems
    exact ⟨.array [.string "a"], by simp, fun form hshape => by cases hshape⟩
  · rfl

end Query

end TripleStore
