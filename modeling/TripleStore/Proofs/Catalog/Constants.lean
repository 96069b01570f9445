import TripleStore.Proofs.Catalog.Grammar
import TripleStore.Proofs.Database.Facts
import TripleStore.Proofs.Json.Ground

/-!
# Facts as goals

A fact can be written as a goal with the same three terms (`Triple.toJson`). If it is one of those that a document says,
and no text of the document begins with a question mark (`Json.texts`), then the goal is the fact
(**`Query.exists_asksWhether`**): a query with this goal mentions no variable.
-/

namespace TripleStore

/-! ### The texts of a value -/

namespace Json

mutual

/-- The texts in a value and the names of the members in it, at any depth. -/
def texts : Json → List String
  | .string s => [s]
  | .array items => textsAll items
  | .object members => textsMembers members
  | .null => []
  | .bool _ => []
  | .number _ => []

/-- The same of all values of a list. -/
def textsAll : List Json → List String
  | [] => []
  | item :: items => texts item ++ textsAll items

/-- The same of some members. -/
def textsMembers : List (String × Json) → List String
  | [] => []
  | (name, value) :: members => name :: texts value ++ textsMembers members

end

/-- No text in the value, and no name, begins with a question mark. -/
def Plain (v : Json) : Prop := ∀ s ∈ v.texts, s.toList.head? ≠ some '?'

mutual

theorem mem_texts_of_mem_leaves {s : String} : ∀ {v : Json}, .string s ∈ v.leaves → s ∈ v.texts
  | .string u, h => by simpa [leaves, texts] using h
  | .array items, h => by
    rw [leaves] at h
    exact mem_textsAll_of_mem_leavesAll h
  | .null, h => by simp [leaves] at h
  | .bool _, h => by simp [leaves] at h
  | .number _, h => by simp [leaves] at h
  | .object _, h => by simp [leaves] at h

theorem mem_textsAll_of_mem_leavesAll {s : String} : ∀ {items : List Json}, .string s ∈ leavesAll items →
    s ∈ textsAll items
  | [], h => by simp [leavesAll] at h
  | item :: items, h => by
    rw [textsAll]
    rcases List.mem_append.1 h with h | h
    · exact List.mem_append_left _ (mem_texts_of_mem_leaves h)
    · exact List.mem_append_right _ (mem_textsAll_of_mem_leavesAll h)

end

theorem textsAll_eq_flatMap (items : List Json) : textsAll items = items.flatMap texts := by
  induction items with
  | nil => rfl
  | cons item items ih => rw [textsAll, ih, List.flatMap_cons]

theorem textsMembers_eq_flatMap (members : List (String × Json)) :
    textsMembers members = members.flatMap fun m => m.1 :: m.2.texts := by
  induction members with
  | nil => rfl
  | cons m members ih => rw [textsMembers, ih, List.flatMap_cons]

theorem Plain.constant {v : Json} (h : v.Plain) : v.Constant := fun s hs => h s (mem_texts_of_mem_leaves hs)

theorem plain_array_iff {items : List Json} : Plain (.array items) ↔ ∀ item ∈ items, item.Plain := by
  simp only [Plain, texts, textsAll_eq_flatMap, List.mem_flatMap]
  exact ⟨fun h item hitem s hs => h s ⟨item, hitem, hs⟩, fun h s ⟨item, hitem, hs⟩ => h item hitem s hs⟩

theorem plain_object_iff {members : List (String × Json)} :
    Plain (.object members) ↔ ∀ m ∈ members, m.1.toList.head? ≠ some '?' ∧ m.2.Plain := by
  simp only [Plain, texts, textsMembers_eq_flatMap, List.mem_flatMap]
  constructor
  · intro h m hm
    exact ⟨h m.1 ⟨m, hm, List.mem_cons_self⟩, fun s hs => h s ⟨m, hm, List.mem_cons_of_mem _ hs⟩⟩
  · rintro h s ⟨m, hm, hs⟩
    rcases List.mem_cons.1 hs with rfl | hs
    · exact (h m hm).1
    · exact (h m hm).2 s hs

/-- The values that a plain value gives to an attribute are plain. -/
theorem Plain.of_mem_elements {v e : Json} (h : v.Plain) (he : e ∈ v.elements) : e.Plain := by
  cases v with
  | array items => exact plain_array_iff.1 h e he
  | _ => exact List.mem_singleton.1 he ▸ h

theorem constant_array_iff {items : List Json} : Constant (.array items) ↔ ∀ item ∈ items, item.Constant := by
  induction items with
  | nil => simp [Constant, leaves, leavesAll]
  | cons item items ih =>
    rw [List.forall_mem_cons, ← ih]
    simp [Constant, leaves, leavesAll, or_imp, forall_and]

end Json

/-! ### Facts as values -/

namespace Triple

variable {t : Triple}

/-- The triple as a JSON value: an array of its terms. -/
def toJson (t : Triple) : Json := .array [t.entity.toJson, t.attr.toJson, t.value.toJson]

/-- The triple as a goal that has not been read. -/
def form (t : Triple) : GoalForm := .pattern t.entity.toJson t.attr.toJson t.value.toJson

theorem shape_toJson (t : Triple) : GoalForm.Shape t.toJson t.form := .pattern _ _ _

/-- A fact is written without objects. -/
theorem object_notMem_leaves_toJson (ht : t.isGround = true) (members : List (String × Json)) :
    .object members ∉ t.toJson.leaves := by
  intro hmem
  have hread : Term.ofJson t.toJson = .ok (.compound [t.entity, t.attr, t.value]) := by
    refine (Term.ofJson_eq_ok_iff _ _).2 ⟨Term.isGround_compound.2 ?_, rfl⟩
    simpa [isGround, toList] using ht
  have hsome : (t.toJson.leaves.findSome? Json.termFault?).isSome = true :=
    List.findSome?_isSome_iff.2 ⟨_, hmem, rfl⟩
  obtain ⟨cause, hcause⟩ := Option.isSome_iff_exists.1 hsome
  cases hread.symm.trans ((Term.ofJson_eq_error_iff _ cause).2 hcause)

end Triple

/-- What a document without question marks in front says is written without them. -/
theorem Facts.OfDocument.constant {data : Json} {facts : List Triple} (h : OfDocument data facts)
    (hplain : data.Plain) : ∀ t ∈ facts, t.toJson.Constant := by
  obtain ⟨entries, objects, rfl, hobjects, hsays⟩ := h
  intro t ht
  obtain ⟨c, hc, hentity, hattr, -, hvalue⟩ := exists_mem_of_forall₂_right hsays ht
  obtain ⟨⟨id, members⟩, hobject, hc⟩ := List.mem_flatMap.1 hc
  obtain ⟨⟨name, value⟩, hm, hc⟩ := List.mem_flatMap.1 hc
  obtain ⟨v, hv, rfl⟩ := List.mem_map.1 hc
  obtain ⟨⟨key, body⟩, hentry, -, hid, hbody⟩ := exists_mem_of_forall₂_right hobjects hobject
  obtain rfl : id = .str key := hid
  obtain rfl : body = .object members := hbody
  obtain ⟨hkey, hmembers⟩ := Json.plain_object_iff.1 hplain _ hentry
  obtain ⟨hname, hvalues⟩ := Json.plain_object_iff.1 hmembers _ hm
  have htext {s : String} (hs : s.toList.head? ≠ some '?') : (Json.string s).Constant := by
    simpa [Json.Constant, Json.leaves] using hs
  refine Json.constant_array_iff.2 ?_
  rw [hentity, hattr, hvalue]
  simp only [List.forall_mem_cons]
  exact ⟨htext hkey, htext hname, (hvalues.of_mem_elements hv).constant, by simp⟩

/-! ### Facts as goals -/

namespace Json.Written

mutual

/-- Where a value has no objects, its text repeats no name. -/
theorem distinct_of_json? : ∀ {room : Nat} {w : Written} {v : Json}, json? room w = some v →
    (∀ members, .object members ∉ v.leaves) → w.Distinct
  | _, .null, _, _, _ => trivial
  | _, .bool _, _, _, _ => trivial
  | _, .number _, _, _, _ => trivial
  | _, .string _, _, _, _ => trivial
  | _, .array ws, _, h, hleaves => by
    cases denotes_iff.2 h with
    | array _ hvs => exact distinctAll_of_jsons? hvs hleaves
  | _, .object ms, _, h, hleaves => by
    cases denotes_iff.2 h with
    | object _ _ => exact absurd (List.mem_singleton_self _) (hleaves _)

/-- The same for lists. -/
theorem distinctAll_of_jsons? : ∀ {room : Nat} {ws : List Written} {vs : List Json}, jsons? room ws = some vs →
    (∀ members, .object members ∉ leavesAll vs) → DistinctAll ws
  | _, [], _, _, _ => trivial
  | _, w :: ws, _, h, hleaves => by
    obtain ⟨v, hv, h⟩ := Option.bind_eq_some_iff.1 h
    obtain ⟨vs, hvs, h⟩ := Option.bind_eq_some_iff.1 h
    cases h
    exact ⟨distinct_of_json? hv fun members hmem => hleaves members (List.mem_append_left _ hmem),
      distinctAll_of_jsons? hvs fun members hmem => hleaves members (List.mem_append_right _ hmem)⟩

end

end Json.Written

namespace Query

variable {query : Query} {t : Triple}

/-- The query asks whether a triple holds, and nothing else. -/
structure AsksWhether (query : Query) (t : Triple) : Prop where
  goals : query.goals = [.pattern t]
  vars : query.vars = []
  scope : query.scope = 0

/-- **A fact that is written without question marks in front is read as a query for it.** -/
theorem exists_asksWhether (ht : t.isGround = true) (hconstant : t.toJson.Constant) :
    ∃ query, ofForms [t.form] = .ok query ∧ query.AsksWhether t := by
  obtain ⟨hentity, hattr, hvalue⟩ := Triple.isGround_iff.1 ht
  have hread {u : Term} (hu : u.isGround = true) (hmem : u.toJson ∈ [t.entity.toJson, t.attr.toJson, t.value.toJson]) :
      Term.ofPattern u.toJson = pure u := by
    rw [Term.ofPattern_eq_ofJson _ (Json.constant_array_iff.1 hconstant _ hmem),
      (Term.ofJson_eq_ok_iff _ u).2 ⟨hu, rfl⟩]
    rfl
  have hgoals : (GoalForm.goals [t.form]).run .empty = .ok ([.pattern t], .empty) := by
    rw [GoalForm.goals, GoalForm.goals, Triple.form, GoalForm.goal, hread hentity (by simp), hread hattr (by simp),
      hread hvalue (by simp)]
    rfl
  refine ⟨⟨[.pattern t], [], 0, fun g hg v hv => ?_⟩, ofForms_eq_ok_iff.2 ⟨_, hgoals, rfl, rfl⟩, rfl, rfl, rfl⟩
  obtain rfl := List.mem_singleton.1 hg
  exact absurd hv (Triple.notMem_vars_of_isGround ht v)

/-- The query is that of every text that is an array of the fact. -/
theorem ofText?_fact (ht : t.isGround = true) (h : ofForms [t.form] = .ok query) {text : String}
    (htext : Json.ofText? text = some (.array [t.toJson])) : ofText? text = .ok query := by
  obtain ⟨w, hw, hvalue⟩ := Option.bind_eq_some_iff.1 htext
  have hdistinct : w.Distinct := by
    refine Json.Written.distinct_of_json? hvalue fun members hmem => ?_
    rw [Json.leaves, Json.leavesAll, Json.leavesAll, List.append_nil] at hmem
    exact Triple.object_notMem_leaves_toJson ht members hmem
  exact (ofText?_eq_ok_iff hw hdistinct hvalue).2 ⟨_, _, rfl, .cons t.shape_toJson .nil, h⟩

end Query

end TripleStore
