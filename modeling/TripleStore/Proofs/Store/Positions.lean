import Mathlib.Data.List.Sort
import TripleStore.Store.Positions

/-!
# Merging lists of positions

On ascending lists `union` and `intersect` give the ascending list of the positions in either list and in
both (`mem_union`, `pairwise_union`, `mem_intersect`, `pairwise_intersect`). An ascending list is known by its
members, so these equations determine the results.
-/

namespace TripleStore.Positions

variable {tail : List Nat → List Nat} {p : Nat} {ps qs : List Nat}

/-! ### Union -/

theorem mem_unionFrom (htail : ∀ qs x, x ∈ tail qs ↔ x ∈ ps ∨ x ∈ qs) (p : Nat) (qs : List Nat) (x : Nat) :
    x ∈ unionFrom tail p qs ↔ x ∈ p :: ps ∨ x ∈ qs := by
  induction qs with
  | nil => simp [unionFrom, htail]
  | cons q rest ih =>
    rw [unionFrom]
    split
    · simp only [List.mem_cons, htail, or_assoc]
    · split
      · simp only [List.mem_cons, ih]
        tauto
      · obtain rfl : q = p := by omega
        simp only [List.mem_cons, htail]
        tauto

theorem mem_union (ps qs : List Nat) (x : Nat) : x ∈ union ps qs ↔ x ∈ ps ∨ x ∈ qs := by
  induction ps generalizing qs x with
  | nil => simp [union]
  | cons p ps ih => exact mem_unionFrom ih p qs x

theorem pairwise_unionFrom (hmem : ∀ qs x, x ∈ tail qs ↔ x ∈ ps ∨ x ∈ qs)
    (htail : ∀ {qs}, qs.Pairwise (· < ·) → (tail qs).Pairwise (· < ·)) (hp : ∀ x ∈ ps, p < x)
    (hqs : qs.Pairwise (· < ·)) : (unionFrom tail p qs).Pairwise (· < ·) := by
  induction qs with
  | nil =>
    refine List.pairwise_cons.2 ⟨fun x hx => ?_, htail .nil⟩
    rcases (hmem _ x).1 hx with hx | hx
    · exact hp x hx
    · simp at hx
  | cons q rest ih =>
    obtain ⟨hq, hrest⟩ := List.pairwise_cons.1 hqs
    rw [unionFrom]
    split
    · rename_i hpq
      refine List.pairwise_cons.2 ⟨fun x hx => ?_, htail hqs⟩
      rcases (hmem _ x).1 hx with hx | hx
      · exact hp x hx
      · rcases List.mem_cons.1 hx with rfl | hx
        · exact hpq
        · exact hpq.trans (hq x hx)
    · split
      · rename_i hqp
        refine List.pairwise_cons.2 ⟨fun x hx => ?_, ih hrest⟩
        rcases (mem_unionFrom hmem p rest x).1 hx with hx | hx
        · rcases List.mem_cons.1 hx with rfl | hx
          · exact hqp
          · exact hqp.trans (hp x hx)
        · exact hq x hx
      · obtain rfl : q = p := by omega
        refine List.pairwise_cons.2 ⟨fun x hx => ?_, htail hrest⟩
        rcases (hmem _ x).1 hx with hx | hx
        · exact hp x hx
        · exact hq x hx

theorem pairwise_union (hps : ps.Pairwise (· < ·)) (hqs : qs.Pairwise (· < ·)) :
    (union ps qs).Pairwise (· < ·) := by
  induction ps generalizing qs with
  | nil => exact hqs
  | cons p ps ih =>
    obtain ⟨hp, hps⟩ := List.pairwise_cons.1 hps
    exact pairwise_unionFrom (mem_union ps) (fun hqs => ih hps hqs) hp hqs

/-! ### Intersection -/

theorem mem_intersectFrom (htail : ∀ {qs x}, qs.Pairwise (· < ·) → (x ∈ tail qs ↔ x ∈ ps ∧ x ∈ qs))
    (hp : ∀ x ∈ ps, p < x) (hqs : qs.Pairwise (· < ·)) (x : Nat) :
    x ∈ intersectFrom tail p qs ↔ x ∈ p :: ps ∧ x ∈ qs := by
  induction qs with
  | nil => simp [intersectFrom]
  | cons q rest ih =>
    obtain ⟨hq, hrest⟩ := List.pairwise_cons.1 hqs
    rw [intersectFrom]
    split
    · rename_i hpq
      rw [htail hqs, List.mem_cons (b := p)]
      have : p ∉ q :: rest := fun h => by
        rcases List.mem_cons.1 h with rfl | h
        · omega
        · have := hq p h
          omega
      refine ⟨fun h => ⟨.inr h.1, h.2⟩, fun h => ⟨h.1.resolve_left ?_, h.2⟩⟩
      rintro rfl
      exact this h.2
    · split
      · rename_i hqp
        rw [ih hrest, List.mem_cons (b := q)]
        have : q ∉ p :: ps := fun h => by
          rcases List.mem_cons.1 h with rfl | h
          · omega
          · have := hp q h
            omega
        refine ⟨fun h => ⟨h.1, .inr h.2⟩, fun h => ⟨h.1, h.2.resolve_left ?_⟩⟩
        rintro rfl
        exact this h.1
      · obtain rfl : q = p := by omega
        rw [List.mem_cons, htail hrest, List.mem_cons, List.mem_cons]
        refine ⟨fun h => ?_, fun h => ?_⟩
        · tauto
        · tauto

theorem mem_intersect (hps : ps.Pairwise (· < ·)) (hqs : qs.Pairwise (· < ·)) (x : Nat) :
    x ∈ intersect ps qs ↔ x ∈ ps ∧ x ∈ qs := by
  induction ps generalizing qs x with
  | nil => simp [intersect]
  | cons p ps ih =>
    obtain ⟨hp, hps⟩ := List.pairwise_cons.1 hps
    exact mem_intersectFrom (fun hqs => ih hps hqs _) hp hqs x

theorem pairwise_intersectFrom
    (hmem : ∀ {qs x}, qs.Pairwise (· < ·) → (x ∈ tail qs ↔ x ∈ ps ∧ x ∈ qs))
    (htail : ∀ {qs}, qs.Pairwise (· < ·) → (tail qs).Pairwise (· < ·)) (hp : ∀ x ∈ ps, p < x)
    (hqs : qs.Pairwise (· < ·)) : (intersectFrom tail p qs).Pairwise (· < ·) := by
  induction qs with
  | nil => exact .nil
  | cons q rest ih =>
    obtain ⟨hq, hrest⟩ := List.pairwise_cons.1 hqs
    rw [intersectFrom]
    split
    · exact htail hqs
    · split
      · exact ih hrest
      · exact List.pairwise_cons.2 ⟨fun x hx => hp x ((hmem hrest).1 hx).1, htail hrest⟩

theorem pairwise_intersect (hps : ps.Pairwise (· < ·)) (hqs : qs.Pairwise (· < ·)) :
    (intersect ps qs).Pairwise (· < ·) := by
  induction ps generalizing qs with
  | nil => exact .nil
  | cons p ps ih =>
    obtain ⟨hp, hps⟩ := List.pairwise_cons.1 hps
    exact pairwise_intersectFrom (fun hqs => mem_intersect hps hqs _) (fun hqs => ih hps hqs) hp hqs

end TripleStore.Positions
