import TripleStore.Yaml.Cell

/-!
# YAML scalars

A scalar keeps how it was written and the tag that was written before it, because these decide whether its
text can be read as anything but a text.
-/

namespace TripleStore.Yaml

/-- How a scalar is written. -/
inductive Style where
  /-- Without any marks. -/
  | plain
  /-- In single or double quotes. -/
  | quoted
  /-- As lines after a bar. -/
  | literal
  /-- As lines after a greater-than sign, which are folded. -/
  | folded
  deriving DecidableEq, Inhabited

/-- A scalar. -/
structure Scalar where
  /-- The characters of the scalar. -/
  text : String
  /-- How the scalar was written. -/
  style : Style := .plain
  /-- The tag of the scalar. -/
  tag? : Option String := none
  deriving DecidableEq, Inhabited

namespace Scalar

/-- The tag with the given name among those that the format defines. -/
def standardTag (name : String) : String := "tag:yaml.org,2002:" ++ name

/-- True when nothing is written. -/
def isBlank (s : Scalar) : Bool := s.style = .plain && s.text.isEmpty

/-- True when a text says that there is no value. -/
def saysNull (text : String) : Bool := ["~", "null", "Null", "NULL"].contains text

/-- True when a scalar may be read as a value of the standard type with the given name: it is plain, or it
consists of lines after a bar and has the tag of that type. -/
def mayBe (name : String) (s : Scalar) : Bool :=
  s.style = .plain || (s.style = .literal && s.tag? = some (standardTag name))

/-- A number without sign, in base sixteen, eight or two after `0x`, `0o` or `0b` and otherwise in base
ten. A decimal number of more than one digit does not begin with zero. -/
def natural? (cs : List Char) : Option Nat :=
  match cs with
  | '0' :: 'x' :: digits => digits? 16 digits
  | '0' :: 'o' :: digits => digits? 8 digits
  | '0' :: 'b' :: digits => digits? 2 digits
  | '0' :: _ :: _ => none
  | digits => digits? 10 digits

/-- The number of a scalar, after a plus sign if there is one. -/
def number? (s : Scalar) : Option Nat :=
  if s.mayBe "int" then
    match s.text.toList with
    | '+' :: rest => natural? rest
    | cs => natural? cs
  else none

/-- The number of a scalar, or no value. A plain scalar without tag says by its text that there is no
value; one with the tag of no value has to do so. -/
def numberOrNull? (s : Scalar) : Option (Option Nat) :=
  if s.style = .plain && s.tag? = none && (s.isBlank || saysNull s.text) then some none
  else if s.style = .plain && s.tag? = some (standardTag "null") then
    if saysNull s.text then some none else none
  else s.number?.map some

/-- The truth value of a scalar. -/
def bool? (s : Scalar) : Option Bool :=
  if s.mayBe "bool" then
    if ["true", "True", "TRUE"].contains s.text then some true
    else if ["false", "False", "FALSE"].contains s.text then some false
    else none
  else none

/-- The name that a local tag gives: what follows its exclamation mark, or that mark itself. -/
def tagName? (s : Scalar) : Option String :=
  match s.tag?.map String.toList with
  | some ['!'] => some "!"
  | some ('!' :: name) => some (String.ofList name)
  | _ => none

/-- The choice that a scalar stands for: the name of its local tag, where nothing else may be said, or else
its text. -/
def choice? (s : Scalar) : Option String :=
  match s.tagName? with
  | some name => if s.isBlank || (s.style = .plain && saysNull s.text) then some name else none
  | none => some s.text

end Scalar

end TripleStore.Yaml
