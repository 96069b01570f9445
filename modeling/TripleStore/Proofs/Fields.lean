import Mathlib.Data.List.Perm.Basic
import Mathlib.Data.String.Basic
import TripleStore.Fields

/-!
# Fields in ascending order

Giving a name a value keeps fields in the ascending order of their names (`Fields.Ascending.insert`), so the fields of
any list of named values are in this order (`Fields.ascending_ofList`). Fields in this order are determined by what they
are: they are the fields of every list of them (`Fields.ofList_eq_of_perm`).
-/

namespace TripleStore.Fields

variable {α : Type} {fields : Fields α} {values : List (String × α)} {name : String} {value : α}

/-- The names are in ascending order, each once. -/
def Ascending (fields : Fields α) : Prop := fields.Pairwise fun f g => f.1 < g.1

instance : Decidable fields.Ascending := inferInstanceAs (Decidable (List.Pairwise _ _))

theorem Ascending.nodup (h : fields.Ascending) : (fields.map Prod.fst).Nodup :=
  (List.pairwise_map.2 h).imp fun hlt => hlt.ne

theorem eq_or_mem_of_mem_insert {f : String × α} (h : f ∈ insert name value fields) :
    f = (name, value) ∨ f ∈ fields := by
  induction fields with
  | nil => exact .inl (List.mem_singleton.1 h)
  | cons g rest ih =>
    rw [insert] at h
    split at h
    · exact List.mem_cons.1 h
    · split at h
      · exact (List.mem_cons.1 h).imp_right (List.mem_cons_of_mem _)
      · rcases List.mem_cons.1 h with rfl | h
        · exact .inr List.mem_cons_self
        · exact (ih h).imp_right (List.mem_cons_of_mem _)

/-- Giving a name a value keeps the names in order. -/
theorem Ascending.insert (h : fields.Ascending) (name : String) (value : α) :
    (Fields.insert name value fields).Ascending := by
  induction fields with
  | nil => exact List.pairwise_singleton _ _
  | cons g rest ih =>
    obtain ⟨hg, hrest⟩ := List.pairwise_cons.1 h
    rw [Fields.insert]
    split
    · rename_i hlt
      exact .cons (List.forall_mem_cons.2 ⟨hlt, fun f hf => hlt.trans (hg f hf)⟩) h
    · split
      · rename_i heq
        exact .cons (heq ▸ hg) hrest
      · rename_i hnlt hne
        refine .cons (fun f hf => ?_) (ih hrest)
        rcases eq_or_mem_of_mem_insert hf with rfl | hf
        · exact lt_of_le_of_ne (not_lt.1 hnlt) (Ne.symm hne)
        · exact hg f hf

theorem ascending_foldl_insert (h : fields.Ascending) (values : List (String × α)) :
    (values.foldl (fun fields f => insert f.1 f.2 fields) fields).Ascending := by
  induction values generalizing fields with
  | nil => exact h
  | cons f values ih => exact ih (h.insert f.1 f.2)

theorem ascending_ofList (values : List (String × α)) : (ofList values).Ascending := ascending_foldl_insert .nil values

theorem mem_of_mem_ofList {f : String × α} (h : f ∈ ofList values) : f ∈ values := by
  have hfold : ∀ (values : List (String × α)) (fields : Fields α),
      f ∈ values.foldl (fun fields f => insert f.1 f.2 fields) fields → f ∈ values ∨ f ∈ fields := by
    intro values
    induction values with
    | nil => exact fun fields h => .inr h
    | cons g values ih =>
      intro fields h
      rcases ih _ h with h | h
      · exact .inl (List.mem_cons_of_mem _ h)
      · rcases eq_or_mem_of_mem_insert h with rfl | h
        · exact .inl List.mem_cons_self
        · exact .inr h
  exact (hfold values [] h).resolve_right List.not_mem_nil

/-- A new name is one more field. -/
theorem perm_insert (h : name ∉ fields.map Prod.fst) : (insert name value fields).Perm ((name, value) :: fields) := by
  induction fields with
  | nil => exact .refl _
  | cons g rest ih =>
    obtain ⟨hg, hrest⟩ := List.ne_and_not_mem_of_not_mem_cons h
    have hinsert : insert name value (g :: rest)
        = if name < g.1 then (name, value) :: g :: rest else g :: insert name value rest := by
      rw [insert, if_neg hg]
    rw [hinsert]
    split
    · exact .refl _
    · exact ((ih hrest).cons g).trans (.swap _ _ _)

theorem perm_foldl_insert (h : ((values ++ fields).map Prod.fst).Nodup) :
    (values.foldl (fun fields f => insert f.1 f.2 fields) fields).Perm (values ++ fields) := by
  induction values generalizing fields with
  | nil => exact .refl _
  | cons f values ih =>
    have hmiddle : (values ++ f :: fields).Perm (f :: (values ++ fields)) := List.perm_middle
    have hnodup : ((values ++ f :: fields).map Prod.fst).Nodup := (hmiddle.map Prod.fst).nodup_iff.2 h
    have hnew : f.1 ∉ fields.map Prod.fst := by
      rw [List.map_append, List.nodup_append] at hnodup
      exact (List.nodup_cons.1 hnodup.2.1).1
    have hinsert : (insert f.1 f.2 fields).Perm (f :: fields) := perm_insert hnew
    have hstep : (values ++ insert f.1 f.2 fields).Perm (values ++ f :: fields) := hinsert.append_left values
    exact ((ih ((hstep.map Prod.fst).nodup_iff.2 hnodup)).trans hstep).trans hmiddle

/-- Named values with different names are all there is in their fields. -/
theorem perm_ofList (h : (values.map Prod.fst).Nodup) : (ofList values).Perm values := by
  have hperm : (ofList values).Perm (values ++ []) := perm_foldl_insert (by rwa [List.append_nil])
  rwa [List.append_nil] at hperm

/-- Leaving a new name out again leaves what there was before it got a value. -/
theorem erase_insert (h : name ∉ fields.map Prod.fst) (value : α) : erase name (insert name value fields) = fields := by
  induction fields with
  | nil => simp [insert, erase]
  | cons g rest ih =>
    obtain ⟨hg, hrest⟩ := List.ne_and_not_mem_of_not_mem_cons h
    have hkept : erase name (g :: rest) = g :: rest := by
      refine List.filter_eq_self.2 fun f hf => decide_eq_true fun heq => h ?_
      exact heq ▸ List.mem_map_of_mem hf
    rw [insert, if_neg hg]
    split
    · rw [erase, List.filter_cons_of_neg (by simp)]
      exact hkept
    · rw [erase, List.filter_cons_of_pos (by simpa using Ne.symm hg)]
      exact congrArg (g :: ·) (ih hrest)

/-- **Fields in ascending order are determined by what they are**, in whatever order they are given. -/
theorem ofList_eq_of_perm (hfields : fields.Ascending) (h : values.Perm fields) : ofList values = fields := by
  have hperm : (ofList values).Perm fields := (perm_ofList ((h.map Prod.fst).nodup_iff.2 hfields.nodup)).trans h
  exact hperm.eq_of_pairwise (fun f g _ _ hfg hgf => absurd hfg hgf.not_gt) (ascending_ofList values) hfields

/-- A name has a value exactly when this is one of the fields, if no name comes twice. -/
theorem get?_eq_some_iff (h : (fields.map Prod.fst).Nodup) :
    get? name fields = some value ↔ (name, value) ∈ fields := by
  induction fields with
  | nil => simp
  | cons f rest ih =>
    obtain ⟨hf, hrest⟩ := List.nodup_cons.1 h
    rw [get?_cons, List.mem_cons]
    split
    · rename_i heq
      have hnot : (name, value) ∉ rest := fun hmem => hf (heq ▸ List.mem_map_of_mem hmem)
      rw [or_iff_left hnot, Option.some.injEq, ← Prod.mk.eta (p := f), Prod.mk.injEq, and_iff_right heq, eq_comm]
    · rename_i hne
      rw [ih hrest, or_iff_right fun heq => hne (congrArg Prod.fst heq)]

/-- Named values with different names have the same values as fields. -/
theorem get?_ofList (h : (values.map Prod.fst).Nodup) (name : String) :
    get? name (ofList values) = get? name values := by
  refine Option.ext fun value => ?_
  rw [get?_eq_some_iff h, get?_eq_some_iff (ascending_ofList values).nodup, (perm_ofList h).mem_iff]

/-- Named values with different names are one field only if they are just this one. -/
theorem ofList_eq_singleton_iff {f : String × α} (h : (values.map Prod.fst).Nodup) :
    ofList values = [f] ↔ values = [f] := by
  constructor
  · intro heq
    exact List.perm_singleton.1 (heq ▸ (perm_ofList h).symm)
  · rintro rfl
    rfl

/-- Fields in ascending order are determined by the values of all names. -/
theorem eq_of_get?_eq {fields' : Fields α} (h : fields.Ascending) (h' : fields'.Ascending)
    (hget : ∀ name, get? name fields = get? name fields') : fields = fields' := by
  have hmem : ∀ f, f ∈ fields ↔ f ∈ fields' := fun f => by
    rw [← get?_eq_some_iff h.nodup, hget, get?_eq_some_iff h'.nodup]
  have hnodup {fields : Fields α} (h : fields.Ascending) : fields.Nodup :=
    h.imp fun hlt heq => hlt.ne (congrArg Prod.fst heq)
  have hperm : fields.Perm fields' := (List.perm_ext_iff_of_nodup (hnodup h) (hnodup h')).2 hmem
  exact hperm.eq_of_pairwise (fun f g _ _ hfg hgf => absurd hfg hgf.not_gt) h h'

end TripleStore.Fields
