import Mathlib.Data.List.Forall2
import Mathlib.Data.Nat.Init

/-!
# Lists

What is known of two lists whose members correspond one by one, of the lists that belong to the members of a list, and
of the members of a list in the order in which they appear first.
-/

namespace TripleStore

variable {α β : Type} {R : α → β → Prop} {as as' : List α} {bs : List β}

theorem exists_mem_of_forall₂ (h : List.Forall₂ R as bs) {a : α} (ha : a ∈ as) : ∃ b ∈ bs, R a b := by
  induction h with
  | nil => cases ha
  | cons hab _ ih =>
    rcases List.mem_cons.1 ha with rfl | ha
    · exact ⟨_, List.mem_cons_self, hab⟩
    · obtain ⟨b, hb, hab⟩ := ih ha
      exact ⟨b, List.mem_cons_of_mem _ hb, hab⟩

theorem exists_mem_of_forall₂_right (h : List.Forall₂ R as bs) {b : β} (hb : b ∈ bs) : ∃ a ∈ as, R a b :=
  exists_mem_of_forall₂ (R := fun b a => R a b) h.flip hb

theorem exists_forall₂_iff : (∃ bs, List.Forall₂ R as bs) ↔ ∀ a ∈ as, ∃ b, R a b := by
  constructor
  · rintro ⟨bs, h⟩ a ha
    obtain ⟨b, -, hab⟩ := exists_mem_of_forall₂ h ha
    exact ⟨b, hab⟩
  · intro h
    induction as with
    | nil => exact ⟨[], .nil⟩
    | cons a as ih =>
      obtain ⟨⟨b, hab⟩, has⟩ := List.forall_mem_cons.1 h
      obtain ⟨bs, hbs⟩ := ih has
      exact ⟨b :: bs, .cons hab hbs⟩

theorem forall₂_append_left_iff :
    List.Forall₂ R (as ++ as') bs ↔ ∃ cs cs', List.Forall₂ R as cs ∧ List.Forall₂ R as' cs' ∧ cs ++ cs' = bs := by
  constructor
  · intro h
    have hfirst := List.forall₂_take as.length h
    have hrest := List.forall₂_drop as.length h
    rw [List.take_left] at hfirst
    rw [List.drop_left] at hrest
    exact ⟨_, _, hfirst, hrest, List.take_append_drop _ _⟩
  · rintro ⟨cs, cs', h, h', rfl⟩
    exact List.rel_append h h'

theorem forall₂_iff_map_eq {f : α → β} (h : ∀ a ∈ as, ∀ b, R a b ↔ f a = b) : List.Forall₂ R as bs ↔ as.map f = bs := by
  induction as generalizing bs with
  | nil => simp [eq_comm]
  | cons a as ih =>
    obtain ⟨ha, has⟩ := List.forall_mem_cons.1 h
    rw [List.forall₂_cons_left_iff, List.map_cons]
    simp [ha, ih has, eq_comm]

/-- A traversal that may fail gives each member what it gives on its own. -/
theorem mapM_eq_some_iff {f : α → Option β} : as.mapM f = some bs ↔ List.Forall₂ (fun a b => f a = some b) as bs := by
  induction as generalizing bs with
  | nil => simp [eq_comm]
  | cons a as ih =>
    rw [List.mapM_cons, List.forall₂_cons_left_iff]
    simp [Option.bind_eq_some_iff, ih, eq_comm (b := bs)]

theorem mapM_eq_ok_iff {ε : Type} {f : α → Except ε β} :
    as.mapM f = .ok bs ↔ List.Forall₂ (fun a b => f a = .ok b) as bs := by
  induction as generalizing bs with
  | nil => simp [pure, Except.pure, eq_comm]
  | cons a as ih =>
    rw [List.mapM_cons, List.forall₂_cons_left_iff]
    simp only [← ih]
    cases f a <;> cases as.mapM f <;> simp [bind, Except.bind, pure, Except.pure, eq_comm]

/-- What is filtered out of the lists for some keys is what is filtered out of the one for a key, if nothing is in the
others. -/
theorem filter_flatMap_of_mem {κ : Type} {key : α → κ} (hkeys : (as.map key).Nodup) {a : α} (ha : a ∈ as)
    {f : α → List β} {p : β → Bool} (hother : ∀ a', key a' ≠ key a → ∀ b ∈ f a', ¬p b = true) :
    (as.flatMap f).filter p = (f a).filter p := by
  induction as with
  | nil => cases ha
  | cons a' as ih =>
    obtain ⟨hnew, hkeys⟩ := List.nodup_cons.1 hkeys
    rw [List.flatMap_cons, List.filter_append]
    rcases List.mem_cons.1 ha with rfl | ha
    · have hrest : (as.flatMap f).filter p = [] := by
        refine List.filter_eq_nil_iff.2 fun b hb => ?_
        obtain ⟨a', ha', hb⟩ := List.mem_flatMap.1 hb
        exact hother a' (fun heq => hnew (heq ▸ List.mem_map_of_mem ha')) b hb
      rw [hrest, List.append_nil]
    · have hne : key a' ≠ key a := fun heq => hnew (heq ▸ List.mem_map_of_mem ha)
      rw [List.filter_eq_nil_iff.2 (hother a' hne), List.nil_append, ih hkeys ha]

/-- What belongs to one member comes once for each time that the member is listed. -/
theorem flatMap_ite_replicate [DecidableEq α] (l : List α) (a : α) (n : Nat) (b : β) :
    (l.flatMap fun x => if x = a then List.replicate n b else []) = List.replicate (l.count a * n) b := by
  induction l with
  | nil => rw [List.flatMap_nil, List.count_nil, Nat.zero_mul, List.replicate_zero]
  | cons x l ih =>
    rw [List.flatMap_cons, ih, List.count_cons]
    by_cases hx : x = a
    · rw [if_pos hx, if_pos (beq_iff_eq.2 hx), List.replicate_append_replicate, Nat.add_mul, Nat.one_mul, Nat.add_comm]
    · rw [if_neg hx, if_neg (mt beq_iff_eq.1 hx), List.nil_append, Nat.add_zero]

/-- Only what a condition says of the members matters for the first one that meets it. -/
theorem findIdx?_congr {p q : α → Bool} (h : ∀ a ∈ as, p a = q a) : as.findIdx? p = as.findIdx? q := by
  induction as with
  | nil => rfl
  | cons a as ih =>
    obtain ⟨ha, has⟩ := List.forall_mem_cons.1 h
    rw [List.findIdx?_cons, List.findIdx?_cons, ha, ih has]

/-- What holds of each member from some bound on holds of all of them from some bound on. -/
theorem exists_bound_of_forall_mem {P : Nat → α → Prop} (h : ∀ a ∈ as, ∃ bound, ∀ n, bound ≤ n → P n a) :
    ∃ bound, ∀ n, bound ≤ n → ∀ a ∈ as, P n a := by
  induction as with
  | nil => exact ⟨0, fun _ _ _ ha => absurd ha List.not_mem_nil⟩
  | cons a as ih =>
    obtain ⟨⟨bound, ha⟩, has⟩ := List.forall_mem_cons.1 h
    obtain ⟨bound', has⟩ := ih has
    refine ⟨max bound bound', fun n hn => List.forall_mem_cons.2 ⟨?_, ?_⟩⟩
    · exact ha n (Nat.le_trans (Nat.le_max_left _ _) hn)
    · exact has n (Nat.le_trans (Nat.le_max_right _ _) hn)

/-- What stands in a list with one more member stood there before or is the new member, at the end. -/
theorem getElem?_concat_eq_some_iff {a b : α} {i : Nat} :
    (as ++ [a])[i]? = some b ↔ as[i]? = some b ∨ i = as.length ∧ a = b := by
  rcases Nat.lt_trichotomy i as.length with hlt | rfl | hgt
  · rw [List.getElem?_append_left hlt]
    simp [Nat.ne_of_lt hlt]
  · simp
  · rw [List.getElem?_eq_none (by simp; omega), List.getElem?_eq_none (Nat.le_of_lt hgt)]
    simp [Nat.ne_of_gt hgt]

/-! ### First appearances -/

theorem eraseDups_concat_of_mem [BEq α] [LawfulBEq α] {a : α} (h : a ∈ as) : (as ++ [a]).eraseDups = as.eraseDups := by
  have hnone : [a].removeAll as = [] := by simpa [List.removeAll] using h
  rw [List.eraseDups_append, hnone, List.eraseDups_nil, List.append_nil]

theorem eraseDups_concat_of_notMem [BEq α] [LawfulBEq α] {a : α} (h : a ∉ as) :
    (as ++ [a]).eraseDups = as.eraseDups ++ [a] := by
  have hone : [a].removeAll as = [a] := by simpa [List.removeAll] using h
  rw [List.eraseDups_append, hone]
  rfl

/-- Leaving members out leaves the order of first appearances as it is. -/
theorem eraseDups_filter [BEq α] [LawfulBEq α] (l : List α) (p : α → Bool) :
    (l.filter p).eraseDups = l.eraseDups.filter p := by
  induction hn : l.length using Nat.strong_induction_on generalizing l with
  | _ n ih =>
    cases l with
    | nil => rfl
    | cons a l =>
      have hlen : (l.filter fun b => !b == a).length < n := by
        have hle := List.length_filter_le (fun b => !b == a) l
        rw [List.length_cons] at hn
        omega
      have hrest := ih _ hlen (l.filter fun b => !b == a) rfl
      rw [List.filter_filter] at hrest
      rw [List.eraseDups_cons]
      by_cases ha : p a = true
      · rw [List.filter_cons_of_pos ha, List.filter_cons_of_pos ha, List.eraseDups_cons, ← hrest, List.filter_filter]
        simp only [Bool.and_comm]
      · rw [List.filter_cons_of_neg ha, List.filter_cons_of_neg ha, ← hrest]
        congr 1
        refine List.filter_congr fun b _ => ?_
        by_cases hb : b = a <;> simp_all

theorem nodup_eraseDups [BEq α] [LawfulBEq α] (l : List α) : l.eraseDups.Nodup := by
  induction l with
  | nil => exact List.nodup_nil
  | cons a l ih =>
    rw [List.eraseDups_cons, eraseDups_filter, List.nodup_cons]
    exact ⟨by simp, ih.sublist List.filter_sublist⟩

/-- The members of some blocks, each of one thing, are listed without repetition in the order of the first blocks that
have them. -/
theorem pairwise_eraseDups_flatMap [BEq α] [LawfulBEq α] {f : β → List α} (hf : ∀ b, ∀ a ∈ f b, ∀ a' ∈ f b, a = a')
    (bs : List β) : (bs.flatMap f).eraseDups.Pairwise fun a a' =>
      bs.findIdx (fun b => (f b).contains a) < bs.findIdx (fun b => (f b).contains a') := by
  induction bs with
  | nil => exact .nil
  | cons b bs ih =>
    -- later blocks stand one place further back
    have hlater {a a' : α} (ha : a ∉ f b) (ha' : a' ∉ f b)
        (h : bs.findIdx (fun b => (f b).contains a) < bs.findIdx (fun b => (f b).contains a')) :
        (b :: bs).findIdx (fun b => (f b).contains a) < (b :: bs).findIdx (fun b => (f b).contains a') := by
      rw [List.findIdx_cons, List.findIdx_cons]
      simpa [ha, ha'] using h
    rw [List.flatMap_cons]
    cases hb : f b with
    | nil =>
      have hnone (a : α) : a ∉ f b := by simp [hb]
      exact ih.imp fun h => hlater (hnone _) (hnone _) h
    | cons a as =>
      have hall : ∀ a' ∈ f b, a' = a := fun a' ha' => hf b _ ha' _ (hb ▸ List.mem_cons_self)
      have has : as.filter (fun a' => !a' == a) = [] := by
        refine List.filter_eq_nil_iff.2 fun a' ha' => ?_
        simp [hall a' (hb ▸ List.mem_cons_of_mem _ ha')]
      rw [List.cons_append, List.eraseDups_cons, List.filter_append, has, List.nil_append, eraseDups_filter]
      refine .cons (fun a' ha' => ?_) ?_
      · have hne : a' ≠ a := by simpa using (List.mem_filter.1 ha').2
        have ha' : a' ∉ f b := fun h => hne (hall a' h)
        rw [List.findIdx_cons, List.findIdx_cons]
        simp [hb ▸ ha', hb]
      · refine (ih.sublist List.filter_sublist).imp_of_mem fun {x y} hx hy h => hlater ?_ ?_ h
        · exact fun hmem => by simpa [hall x hmem] using (List.mem_filter.1 hx).2
        · exact fun hmem => by simpa [hall y hmem] using (List.mem_filter.1 hy).2

end TripleStore
