import TripleStore.Error
import TripleStore.Scope

/-!
# Terms as JSON values

Texts, 64-bit integers, truth values and arrays are the JSON values with a term form. In data every text
is a constant. In patterns a text that begins with a question mark is a variable: `?name` the variable of
that name, `?_` a new one at every mention.
-/

namespace TripleStore

/-- The 64-bit integer that a JSON number stands for. -/
def Json.Number.int64? : Json.Number → Option Int64
  | .integer n =>
    if Int64.minValue.toInt ≤ n ∧ n ≤ Int64.maxValue.toInt then some (Int64.ofInt n) else none
  | .decimal _ => none

namespace Term

mutual

/-- The ground term of a JSON value. -/
def ofJson : Json → Except Invalid Term
  | .string s => .ok (.str s)
  | .bool b => .ok (.bool b)
  | .number n =>
    match n.int64? with
    | some k => .ok (.int k)
    | none => .error (.numberTerm n)
  | .array items => (ofJsons items).map .compound
  | .null => .error .nullTerm
  | .object members => .error (.objectTerm (.object members))

/-- The ground terms of a list of JSON values. -/
def ofJsons : List Json → Except Invalid (List Term)
  | [] => .ok []
  | item :: rest => do
    let t ← ofJson item
    let ts ← ofJsons rest
    return t :: ts

end

mutual

/-- The JSON value of a term. A variable is written as its text after a question mark. -/
def toJson : Term → Json
  | .var v => .string ("?" ++ (Term.var v).display)
  | .str s => .string s
  | .int n => .number (.integer n.toInt)
  | .bool b => .bool b
  | .compound items => .array (toJsons items)

/-- The JSON values of a list of terms. -/
def toJsons : List Term → List Json
  | [] => []
  | t :: ts => toJson t :: toJsons ts

end

end Term

/-! ### Patterns -/

/-- A computation that gives out variables and may refuse its input. -/
abbrev Scoping (α : Type) := StateT Scope (Except Invalid) α

namespace Scoping

/-- The variable of a name. -/
def var (name : String) : Scoping Term := fun scope =>
  let (v, scope) := scope.var name
  .ok (.var v, scope)

/-- A new variable without a name. -/
def fresh : Scoping Term := fun scope =>
  let (v, scope) := scope.fresh
  .ok (.var v, scope)

/-- Refuses the input. -/
def refuse {α : Type} (cause : Invalid) : Scoping α := fun _ => .error cause

end Scoping

namespace Term

/-- The term of a text in a pattern. -/
def ofPatternText (s : String) : Scoping Term :=
  match s.toList with
  | ['?'] => Scoping.refuse .missingName
  | ['?', '_'] => Scoping.fresh
  | '?' :: name => Scoping.var (String.ofList name)
  | _ => pure (.str s)

mutual

/-- The term of a JSON value in a pattern. -/
def ofPattern : Json → Scoping Term
  | .string s => ofPatternText s
  | .array items => do
    let ts ← ofPatterns items
    return .compound ts
  | .null => StateT.lift (ofJson .null)
  | .bool b => StateT.lift (ofJson (.bool b))
  | .number n => StateT.lift (ofJson (.number n))
  | .object members => StateT.lift (ofJson (.object members))

/-- The terms of a list of JSON values in a pattern, from left to right. -/
def ofPatterns : List Json → Scoping (List Term)
  | [] => pure []
  | item :: rest => do
    let t ← ofPattern item
    let ts ← ofPatterns rest
    return t :: ts

end

end Term

end TripleStore
