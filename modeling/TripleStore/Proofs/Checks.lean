import TripleStore.Goal

/-!
# When checks are decided

A check looks at the values of its arguments, from left to right. The first value that is not ground is an error; where
all values are ground, what the check says of them (`Check.verdict`) is the answer (**`Check.run_eq`**). So a check is
decided exactly when its arguments are instantiated (`Check.run_eq_ok_iff`), and an error names an argument that is not
(`Check.exists_of_run_eq_error`).
-/

namespace TripleStore.Check

variable {s s' : Bindings} {c : Check} {b : Bool}

/-- What a check says when its arguments have the given values. -/
def verdict (value : Term → Term) : Check → Bool
  | .distinct left right => value left != value right
  | .assert _ args holds => holds (args.map value)

theorem verdict_congr {f g : Term → Term} (h : ∀ t ∈ c.args, f t = g t) : c.verdict f = c.verdict g := by
  cases c with
  | distinct left right => rw [verdict, verdict, h left (by simp [args]), h right (by simp [args])]
  | assert label args holds => exact congrArg holds (List.map_congr_left h)

/-- Arguments are instantiated from left to right, up to the first one whose value is not ground. -/
theorem mapM_instantiate (operator : String) (s : Bindings) (ts : List Term) :
    ts.mapM (instantiate operator s) =
      match ts.find? fun t => !(s.reify t).isGround with
      | some t => .error ⟨operator, s.reify t⟩
      | none => .ok (ts.map s.reify) := by
  induction ts with
  | nil => rfl
  | cons t ts ih =>
    rw [List.mapM_cons, ih, List.find?_cons, instantiate]
    cases (s.reify t).isGround with
    | false => rfl
    | true => cases ts.find? fun t => !(s.reify t).isGround <;> rfl

/-- **How a check ends.** The first argument whose value is not ground is an error; where there is none, the check is
decided by the values of its arguments. -/
theorem run_eq (s : Bindings) (c : Check) :
    c.run s =
      match c.args.find? fun t => !(s.reify t).isGround with
      | some t => .error ⟨c.operator, s.reify t⟩
      | none => .ok (c.verdict s.reify) := by
  cases c with
  | distinct left right =>
    rw [run, args, List.find?_cons, List.find?_cons, instantiate, instantiate]
    cases (s.reify left).isGround with
    | false => rfl
    | true => cases (s.reify right).isGround <;> rfl
  | assert label args holds =>
    rw [run, mapM_instantiate, Check.args]
    cases args.find? fun t => !(s.reify t).isGround <;> rfl

/-- A check is decided exactly when the values of its arguments are ground. -/
theorem run_eq_ok_iff :
    c.run s = .ok b ↔ (∀ t ∈ c.args, (s.reify t).isGround = true) ∧ c.verdict s.reify = b := by
  rw [run_eq]
  cases hfind : c.args.find? fun t => !(s.reify t).isGround with
  | none =>
    have hground : ∀ t ∈ c.args, (s.reify t).isGround = true := by simpa using hfind
    exact ⟨fun h => ⟨hground, Except.ok.inj h⟩, fun h => congrArg Except.ok h.2⟩
  | some t =>
    have hopen : (s.reify t).isGround = false := by simpa using List.find?_some hfind
    constructor
    · intro h
      cases h
    · rintro ⟨hground, -⟩
      rw [hground t (List.mem_of_find?_eq_some hfind)] at hopen
      cases hopen

/-- A check that is not decided names the value of an argument, which is not ground. -/
theorem exists_of_run_eq_error {e : Uninstantiated} (h : c.run s = .error e) :
    ∃ t ∈ c.args, (s.reify t).isGround = false ∧ e = ⟨c.operator, s.reify t⟩ := by
  rw [run_eq] at h
  cases hfind : c.args.find? fun t => !(s.reify t).isGround with
  | none =>
    rw [hfind] at h
    cases h
  | some t =>
    rw [hfind] at h
    cases h
    exact ⟨t, List.mem_of_find?_eq_some hfind, by simpa using List.find?_some hfind, rfl⟩

theorem exists_run (h : ∀ t ∈ c.args, (s.reify t).isGround = true) : ∃ b, c.run s = .ok b :=
  ⟨_, run_eq_ok_iff.2 ⟨h, rfl⟩⟩

/-- Where arguments are instantiated alike, checks are decided alike. -/
theorem run_map {f : Term → Term} {g : Uninstantiated → Uninstantiated}
    (h : ∀ operator t, instantiate operator s' (f t) = (instantiate operator s t).mapError g) (c : Check) :
    (c.map f).run s' = (c.run s).mapError g := by
  have args (operator : String) (ts : List Term) : (ts.map f).mapM (instantiate operator s')
      = (ts.mapM (instantiate operator s)).mapError g := by
    induction ts with
    | nil => rfl
    | cons t ts ih =>
      rw [List.map_cons, List.mapM_cons, List.mapM_cons, h, ih]
      cases instantiate operator s t with
      | error e => rfl
      | ok v => cases ts.mapM (instantiate operator s) <;> rfl
  cases c with
  | distinct left right =>
    rw [map, run, run, h, h]
    cases instantiate "neq" s left with
    | error e => rfl
    | ok l => cases instantiate "neq" s right <;> rfl
  | assert label ts holds =>
    rw [map, run, run, args]
    cases ts.mapM (instantiate "assert" s) <;> rfl

end TripleStore.Check
