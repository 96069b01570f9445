import Mathlib.Data.Finset.Card
import TripleStore.Proofs.Json.Patterns
import TripleStore.Proofs.Term.Display

/-!
# Terms written and read back

The JSON value of a term mentions its variables by their texts. Read as a pattern, the value gives back the term with
other variables (`Term.reads_toJson`): those that a scope gives out for the texts, which are numbered by first
appearance (`Scope.givesOut_names`). Different variables have different texts, none of which is taken for anything but a
name. So what is read is a variant of the term that was written (**`Term.ofPattern_variant`**).
-/

namespace TripleStore

/-! ### Names in a scope -/

namespace Scope

variable {names done : List String}

/-- The scope that has given out a variable for each of some names. -/
def ofNames (names : List String) : Scope := ⟨names.map some⟩

/-- A name has the variable at its place, and a new name gets the next variable. -/
theorem var_ofNames (names : List String) (name : String) : (ofNames names).var name =
    if name ∈ names then (names.idxOf name, ofNames names) else (names.length, ofNames (names ++ [name])) := by
  have hfind : (ofNames names).names.findIdx? (· == some name) = names.findIdx? (· == name) := by
    rw [ofNames, List.findIdx?_map]
    exact findIdx?_congr fun other _ => by simp
  rw [var, hfind]
  split_ifs with hname
  · have hlt : names.findIdx (· == name) < names.length := List.idxOf_lt_length_iff.2 hname
    rw [List.findIdx?_eq_guard_findIdx_lt, Option.guard_pos (by simpa using hlt)]
    rfl
  · have hnone : names.findIdx? (· == name) = none := List.idxOf?_eq_none_iff.2 hname
    rw [hnone]
    simp [ofNames, size]

/-- **Names get variables by first appearance**: each has the variable at its place among the different names. -/
theorem givesOut_names (done names : List String) : GivesOut (ofNames done.eraseDups)
    (names.map fun name => (.named name, (done ++ names).eraseDups.idxOf name)) (ofNames (done ++ names).eraseDups) := by
  induction names generalizing done with
  | nil => rw [List.append_nil]; exact .nil
  | cons name names ih =>
    have hrest := ih (done ++ [name])
    rw [List.append_assoc, List.singleton_append] at hrest
    refine .cons ?_ hrest
    rw [mention, var_ofNames, List.eraseDups_append]
    -- a name that has come before keeps its place, a new one stands behind all names so far
    split_ifs with hname
    · rw [eraseDups_concat_of_mem (List.mem_eraseDups.1 hname), List.idxOf_append_of_mem hname]
    · have hfirst : ((name :: names).removeAll done).eraseDups.idxOf name = 0 := by
        rw [List.removeAll, List.filter_cons_of_pos (by simpa using hname), List.eraseDups_cons, List.idxOf_cons_self]
      rw [eraseDups_concat_of_notMem (mt List.mem_eraseDups.2 hname), List.idxOf_append_of_notMem hname, hfirst]
      rfl

end Scope

namespace Term

/-! ### Written terms -/

/-- The name by which the JSON value of a term mentions a variable. -/
def writtenName (v : Nat) : String := (var v).display

theorem writtenName_injective : Function.Injective writtenName := fun _ _ h => var.inj (display_injective h)

/-- The text of a variable is read as its name. -/
theorem proper_writtenName (v : Nat) : (Mention.named (writtenName v)).Proper := by
  have hlist : (writtenName v).toList = '_' :: 'G' :: Nat.toDigits 10 v := String.toList_ofList
  refine ⟨fun h => ?_, fun h => ?_⟩
  · rw [h] at hlist
    cases hlist
  · rw [h] at hlist
    cases hlist

/-- The mentions of some variables, each with the variable that it becomes. -/
def trail (ρ : Nat → Nat) (vars : List Nat) : List (Mention × Nat) := vars.map fun v => (.named (writtenName v), ρ v)

theorem trail_append (ρ : Nat → Nat) (vars vars' : List Nat) :
    trail ρ (vars ++ vars') = trail ρ vars ++ trail ρ vars' :=
  List.map_append

/-- The trail of some terms is that of each, one after the other. -/
theorem readsAll_toJsons {ρ : Nat → Nat} {ts : List Term}
    (h : ∀ t ∈ ts, Reads t.toJson (t.rename ρ) (trail ρ t.vars)) :
    ReadsAll (toJsons ts) (ts.map (rename ρ)) (trail ρ (varsAll ts)) := by
  induction ts with
  | nil => exact .nil
  | cons t ts ih =>
    obtain ⟨ht, hts⟩ := List.forall_mem_cons.1 h
    rw [varsAll, trail_append]
    exact .cons ht (ih hts)

/-- **The JSON value of a term is read as the term with other variables**, if no text in the term is taken for a
mention. -/
theorem reads_toJson (ρ : Nat → Nat) {t : Term} (h : ∀ s, .str s ∈ t.parts → s.toList.head? ≠ some '?') :
    Reads t.toJson (t.rename ρ) (trail ρ t.vars) := by
  induction t with
  | var v => exact .mention (proper_writtenName v)
  | str s => exact .str (h s (self_mem_parts _))
  | int k => exact .int k
  | bool b => exact .bool b
  | compound items ih =>
    rw [rename_compound]
    exact .array (readsAll_toJsons fun t ht => ih t ht fun s hs => h s (parts_subset ht hs))

/-- **A term that is written as JSON and read as a pattern is a variant of itself**, if no text in it is taken for a
mention: it has the same shape and the same constants, its variables are renamed one to one, and a scope that was empty
has just as many variables as there are in the term. -/
theorem ofPattern_variant {t : Term} (h : ∀ s, .str s ∈ t.parts → s.toList.head? ≠ some '?') :
    ∃ (ρ : Nat → Nat) (scope : Scope), (ofPattern t.toJson).run .empty = .ok (t.rename ρ, scope) ∧
      Set.InjOn ρ {v | v ∈ t.vars} ∧ scope.size = t.vars.toFinset.card := by
  let names := t.vars.map writtenName
  let ρ (v : Nat) : Nat := names.eraseDups.idxOf (writtenName v)
  have hgives := Scope.givesOut_names [] names
  rw [List.nil_append, List.map_map] at hgives
  refine ⟨ρ, .ofNames names.eraseDups, ?_, ?_, ?_⟩
  · exact (ofPattern_gives t.toJson _ _ _).2 ⟨_, reads_toJson ρ h, hgives⟩
  · intro v hv w _ hvw
    have hmem : writtenName v ∈ names.eraseDups := List.mem_eraseDups.2 (List.mem_map_of_mem hv)
    exact writtenName_injective ((List.idxOf_inj hmem).1 hvw)
  · calc (Scope.ofNames names.eraseDups).size = names.eraseDups.length := List.length_map _
      _ = names.eraseDups.toFinset.card := (List.toFinset_card_of_nodup (nodup_eraseDups names)).symm
      _ = (t.vars.toFinset.image writtenName).card := by
        congr 1
        ext name
        simp [names]
      _ = t.vars.toFinset.card := Finset.card_image_of_injective _ writtenName_injective

/-- Two variables, one of which comes again at another depth, are still two when the term is read. -/
theorem ofPattern_variant_nested :
    let t := compound [.var 7, .str "_G3", .compound [.var 3, .int (-1), .var 7]]
    (∀ s, .str s ∈ t.parts → s.toList.head? ≠ some '?') ∧
      ∃ (ρ : Nat → Nat) (scope : Scope), (ofPattern t.toJson).run .empty = .ok (t.rename ρ, scope) ∧
        ρ 7 ≠ ρ 3 ∧ scope.size = 2 := by
  intro t
  have h : ∀ s, .str s ∈ t.parts → s.toList.head? ≠ some '?' := by
    intro s hs
    obtain rfl : s = "_G3" := by simpa [t, parts, partsAll] using hs
    decide
  obtain ⟨ρ, scope, hrun, hinj, hsize⟩ := ofPattern_variant h
  have hne : ρ 7 ≠ ρ 3 := hinj.ne (by decide) (by decide) (by decide)
  exact ⟨h, ρ, scope, hrun, hne, hsize.trans (by decide)⟩

end Term

end TripleStore
