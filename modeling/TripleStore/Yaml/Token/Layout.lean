import TripleStore.Yaml.Token.Basic

/-!
# The layout of a YAML text

What is open at a place of a YAML text: the collections whose lines have begun, the brackets, and for each
of these levels the token that is a key if a colon follows it. Operations on a layout add the tokens that
show where lines begin and end. They have no value if a key was needed and its colon is missing.
-/

namespace TripleStore.Yaml

/-- A place among the tokens where a key begins if a colon follows on the same line. -/
structure Candidate where
  /-- The number of tokens before the place. -/
  index : Nat
  /-- The place in the text. -/
  place : Place
  /-- True when only a key can stand there. -/
  needed : Bool
  deriving DecidableEq

/-- What is open at a place of a text, and the tokens before it. -/
structure Layout where
  /-- The tokens so far. -/
  tokens : Array Token := #[]
  /-- The columns of the collections whose lines have begun; the innermost first. -/
  columns : List Nat := []
  /-- The candidate of the innermost brackets, or outside of brackets. -/
  candidate? : Option Candidate := none
  /-- The candidates of the levels around the innermost brackets; none outside of brackets. -/
  outer : List (Option Candidate) := []
  /-- True when a key can begin here. -/
  keyAllowed : Bool := true
  /-- The names of anchors with their numbers; the last one of a name first. -/
  anchors : List (String × Nat) := []

namespace Layout

/-- True within brackets. -/
def inFlow (l : Layout) : Bool := !l.outer.isEmpty

/-- The number of columns that the innermost collection takes; zero outside of collections. -/
def margin (l : Layout) : Nat :=
  match l.columns with
  | [] => 0
  | column :: _ => column + 1

/-- Adds a token. -/
def push (t : Token) (l : Layout) : Layout := { l with tokens := l.tokens.push t }

/-- Says whether a key can begin here. -/
def allowKey (allowed : Bool) (l : Layout) : Layout := { l with keyAllowed := allowed }

/-! ### Candidates -/

/-- Drops the candidate of the innermost level. -/
def dropCandidate? (l : Layout) : Option Layout :=
  if l.candidate?.any Candidate.needed then none else some { l with candidate? := none }

/-- Makes the token that follows a candidate, if a key can begin here. It has to be a key if it stands in
the column of the innermost collection. -/
def addCandidate? (p : Place) (l : Layout) : Option Layout :=
  if l.keyAllowed then
    l.dropCandidate?.map fun l =>
      let needed := !l.inFlow && l.columns.head? = some p.column
      { l with candidate? := some ⟨l.tokens.size, p, needed⟩ }
  else some l

/-- The candidate, if it still is one at a later place: a key and its colon stand on one line and at most
1024 bytes apart. There is no value if the candidate had to be a key. -/
def Candidate.kept? (p : Place) (c : Candidate) : Option (Option Candidate) :=
  if c.place.line < p.line || c.place.offset + 1024 < p.offset then
    if c.needed then none else some none
  else some (some c)

/-- The same for the candidate of a level, if there is one. -/
def keptOnLevel? (p : Place) : Option Candidate → Option (Option Candidate)
  | some c => Candidate.kept? p c
  | none => some none

/-- Drops the candidates that are too far before a place. -/
def dropDistant? (p : Place) (l : Layout) : Option Layout := do
  return { l with candidate? := ← keptOnLevel? p l.candidate?, outer := ← l.outer.mapM (keptOnLevel? p) }

/-! ### Collections of lines -/

/-- Ends the collections whose columns do not satisfy a condition. -/
def closeWhile (isClosed : Nat → Bool) (l : Layout) : Layout :=
  if l.inFlow then l
  else
    let closed := l.columns.takeWhile isClosed
    { l with
      tokens := l.tokens ++ (closed.map fun _ => Token.blockEnd).toArray
      columns := l.columns.dropWhile isClosed }

/-- Ends the collections that are further in than a column. -/
def closeBeyond (column : Nat) (l : Layout) : Layout := l.closeWhile (column < ·)

/-- Ends all collections and drops the candidate: what a line between documents does. -/
def closeAll? (l : Layout) : Option Layout :=
  ((l.closeWhile fun _ => true).allowKey false).dropCandidate?

/-- Begins a collection in a column unless the innermost one already stands there or further in. The token
for it is inserted before the token with the given index. -/
def openAt (start : Token) (column index : Nat) (l : Layout) : Layout :=
  if l.inFlow || column < l.margin then l
  else { l with tokens := l.tokens.insertIdxIfInBounds index start, columns := column :: l.columns }

/-- Begins a collection in the column of a place, if none stands there. Outside of brackets this needs a
place where a key can begin. -/
def openHere? (start : Token) (p : Place) (l : Layout) : Option Layout :=
  if l.inFlow then some l
  else if l.keyAllowed then some (l.openAt start p.column l.tokens.size)
  else none

/-! ### Brackets -/

/-- Adds an opening bracket or brace. -/
def enter? (t : Token) (p : Place) (l : Layout) : Option Layout :=
  (l.addCandidate? p).map fun l =>
    push t { l with candidate? := none, outer := l.candidate? :: l.outer, keyAllowed := true }

/-- Adds a closing bracket or brace. -/
def leave? (t : Token) (l : Layout) : Option Layout :=
  l.dropCandidate?.map fun l =>
    match l.outer with
    | [] => push t (l.allowKey false)
    | candidate? :: outer =>
      push t { l with candidate? := candidate?, outer := outer, keyAllowed := false }

/-- Adds a comma. -/
def comma? (l : Layout) : Option Layout := l.dropCandidate?.map fun l => (l.allowKey true).push .comma

/-! ### Items, keys and values -/

/-- Adds the hyphen before an item. -/
def item? (p : Place) (l : Layout) : Option Layout := do
  let l ← l.openHere? .sequenceStart p
  return ((← l.dropCandidate?).allowKey true).push .item

/-- Adds a question mark before a key. -/
def key? (p : Place) (l : Layout) : Option Layout := do
  let l ← (← l.openHere? .mappingStart p).dropCandidate?
  return (l.allowKey !l.inFlow).push .key

/-- Adds a colon: the candidate becomes a key, and if there is none the key is empty. -/
def value? (p : Place) (l : Layout) : Option Layout :=
  match l.candidate? with
  | some c =>
    let l := { l with
      tokens := l.tokens.insertIdxIfInBounds c.index .key
      candidate? := none
      keyAllowed := false }
    some ((l.openAt .mappingStart c.place.column c.index).push .value)
  | none => (l.openHere? .mappingStart p).map fun l => (l.allowKey !l.inFlow).push .value

/-! ### Nodes -/

/-- Adds a token with which a node begins. -/
def node? (t : Token) (p : Place) (l : Layout) : Option Layout :=
  (l.addCandidate? p).map fun l => (l.allowKey false).push t

/-- Adds a scalar of lines, which is not a key. -/
def lines? (t : Token) (l : Layout) : Option Layout :=
  l.dropCandidate?.map fun l => (l.allowKey true).push t

/-- Adds an anchor. Its number is the number of names that were used before it, so a name that is used
again takes the number of the next new one. -/
def anchor? (name : String) (p : Place) (l : Layout) : Option Layout :=
  let number := (l.anchors.map Prod.fst).eraseDups.length
  (l.node? (.anchor number) p).map fun l => { l with anchors := (name, number) :: l.anchors }

/-- Adds an alias, which refers to the last anchor of its name. -/
def alias? (name : String) (p : Place) (l : Layout) : Option Layout := do
  l.node? (.alias (← List.lookup name l.anchors)) p

end Layout

end TripleStore.Yaml
