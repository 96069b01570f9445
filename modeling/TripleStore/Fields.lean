/-!
# Fields

Fields are named values in ascending order of their names, each name once. Names are ordered by code
point.
-/

namespace TripleStore

/-- Named values, listed in ascending order of their names. -/
abbrev Fields (α : Type) := List (String × α)

namespace Fields

variable {α : Type}

/-- The value of the given name. -/
def get? (name : String) (fields : Fields α) : Option α := List.lookup name fields

/-- Gives a name a value, in place of an earlier value of that name if there is one. -/
def insert (name : String) (value : α) : Fields α → Fields α
  | [] => [(name, value)]
  | (n, x) :: rest =>
    if name < n then (name, value) :: (n, x) :: rest
    else if name = n then (name, value) :: rest
    else (n, x) :: insert name value rest

/-- Nothing has a name where there are no fields. -/
@[simp] theorem get?_nil (name : String) : get? name ([] : Fields α) = none := rfl

/-- The first field of a name gives its value. -/
theorem get?_cons (name other : String) (value : α) (rest : Fields α) :
    get? other ((name, value) :: rest) = if other = name then some value else get? other rest := by
  by_cases h : other = name <;> simp [get?, List.lookup_cons, h, beq_eq_false_iff_ne.2]

/-- Giving a name a value changes the value of that name only. -/
theorem get?_insert (name other : String) (value : α) (fields : Fields α) :
    get? other (insert name value fields) = if other = name then some value else get? other fields := by
  induction fields with
  | nil => simp [insert, get?_cons]
  | cons f rest ih =>
    simp only [insert]
    split
    · rw [get?_cons]
    · split
      · rename_i h
        rw [get?_cons, get?_cons, h]
        split <;> rfl
      · rename_i h
        rw [get?_cons, get?_cons, ih]
        by_cases ho : other = f.1
        · simp [ho, Ne.symm h]
        · simp [ho]

/-- Leaves a name out. -/
def erase (name : String) (fields : Fields α) : Fields α := fields.filter fun f => f.1 ≠ name

/-- The fields of a list of named values, in which the last value of each name counts. -/
def ofList (values : List (String × α)) : Fields α :=
  values.foldl (fun fields f => insert f.1 f.2 fields) []

end Fields

end TripleStore
