import Mathlib.Data.List.Nodup
import TripleStore.Scope

/-!
# The names of a scope

A mention of a name gives the variable that the name has, or else a new one (`Scope.var_cases`). So a scope that has been
built by giving out variables (`Scope.Built`) has each name once (`Scope.Built.nodup_named`). Its named variables
are listed in the order of their numbers (`Scope.pairwise_named`), which is that of the first mention of their names.
-/

namespace TripleStore.Scope

variable {scope : Scope} {name : String} {v : Nat}

/-- The scopes that giving out variables leads to. -/
inductive Built : Scope → Prop
  | empty : Built .empty
  | var {scope : Scope} (name : String) : Built scope → Built (scope.var name).2
  | fresh {scope : Scope} : Built scope → Built scope.fresh.2

/-- A mention of a name either finds the variable of the name or makes one. -/
theorem var_cases (scope : Scope) (name : String) :
    (∃ v, scope.names[v]? = some (some name) ∧ scope.var name = (v, scope)) ∨
      some name ∉ scope.names ∧ scope.var name = (scope.size, ⟨scope.names ++ [some name]⟩) := by
  rw [var]
  split
  · rename_i v hfound
    obtain ⟨hv, hname, -⟩ := List.findIdx?_eq_some_iff_getElem.1 hfound
    refine .inl ⟨v, ?_, rfl⟩
    rw [List.getElem?_eq_getElem hv, beq_iff_eq.1 hname]
  · rename_i hnone
    refine .inr ⟨fun hmem => ?_, rfl⟩
    simpa using List.findIdx?_eq_none_iff.1 hnone _ hmem

theorem mem_named_iff : (name, v) ∈ scope.named ↔ scope.names[v]? = some (some name) := by
  rw [named, List.mem_filterMap]
  constructor
  · rintro ⟨⟨name?, u⟩, hu, hname⟩
    obtain ⟨_, rfl, heq⟩ := Option.map_eq_some_iff.1 hname
    cases heq
    exact List.mem_zipIdx_iff_getElem?.1 hu
  · intro hv
    exact ⟨(some name, v), List.mem_zipIdx_iff_getElem?.2 hv, rfl⟩

theorem lt_size_of_mem_named (h : (name, v) ∈ scope.named) : v < scope.size :=
  (List.getElem?_eq_some_iff.1 (mem_named_iff.1 h)).1

/-- The named variables are listed in the order of their numbers. -/
theorem pairwise_named (scope : Scope) : scope.named.Pairwise fun x y => x.2 < y.2 := by
  have hnumbers : (scope.names.zipIdx.map Prod.snd).Pairwise (· < ·) := by
    rw [List.zipIdx_map_snd]
    exact List.pairwise_lt_range'
  refine (List.pairwise_map.1 hnumbers).filterMap _ fun x y hlt x' hx y' hy => ?_
  obtain ⟨_, -, rfl⟩ := Option.map_eq_some_iff.1 hx
  obtain ⟨_, -, rfl⟩ := Option.map_eq_some_iff.1 hy
  exact hlt

theorem map_fst_named (scope : Scope) : scope.named.map Prod.fst = scope.names.filterMap id := by
  rw [named, List.map_filterMap]
  conv_rhs => rw [← List.zipIdx_map_fst 0 scope.names, List.filterMap_map]
  refine List.filterMap_congr fun x _ => ?_
  obtain ⟨name?, v⟩ := x
  cases name? <;> rfl

theorem Built.nodup_named (h : scope.Built) : (scope.named.map Prod.fst).Nodup := by
  rw [map_fst_named]
  induction h with
  | empty => exact List.nodup_nil
  | @var scope name _ ih =>
    rcases scope.var_cases name with ⟨v, -, heq⟩ | ⟨hnew, heq⟩
    · rwa [heq]
    · have hnew : name ∉ scope.names.filterMap id := by simpa using hnew
      rw [heq, List.filterMap_append]
      refine List.nodup_append.2 ⟨ih, List.nodup_singleton name, fun a ha b hb hab => hnew ?_⟩
      obtain rfl : b = name := List.mem_singleton.1 hb
      exact hab ▸ ha
  | @fresh scope _ ih => simpa [Scope.fresh] using ih

end TripleStore.Scope
