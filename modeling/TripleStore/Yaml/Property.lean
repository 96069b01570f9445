import TripleStore.Yaml.Gap

/-!
# Tags, anchors and directives of YAML texts

Before a node there may be an anchor, by which an alias refers to it, and a tag, which names its type. A tag
is written as a handle and a suffix, where directives before the document say what the handles stand for,
or in full between angle brackets.
-/

namespace TripleStore.Yaml

/-! ### Names -/

/-- Reads the name of an anchor or alias, after which the word or the entry has to end. -/
def name? (cells : List Cell) : Option (String × List Cell) :=
  let (name, rest) := Cell.span isNameChar cells
  let c := Cell.next rest
  if !name.isEmpty && (endsWord c || "?:,]\x7d%@\x60".toList.contains c) then
    some (String.ofList (Cell.chars name), rest)
  else none

/-! ### Escaped characters -/

namespace Octets

/-- How many octets a character has whose first one is given. -/
def length? (octet : Nat) : Option Nat :=
  if octet < 0x80 then some 1
  else if 0xc0 ≤ octet ∧ octet < 0xe0 then some 2
  else if 0xe0 ≤ octet ∧ octet < 0xf0 then some 3
  else if 0xf0 ≤ octet ∧ octet < 0xf8 then some 4
  else none

/-- Reads octets, each as a percent sign and two digits in base sixteen. -/
def take? : (count : Nat) → List Cell → Option (List Nat × List Cell)
  | 0, cells => some ([], cells)
  | count + 1, cells => do
    guard (Cell.next cells = '%')
    let octet ← digits? 16 (Cell.chars ((cells.drop 1).take 2))
    let (octets, rest) ← take? count (cells.drop 3)
    return (octet :: octets, rest)

/-- Reads the octets of one character: the first one says how many there are, and the other ones begin with
the bits of a continuation. -/
def character? (cells : List Cell) : Option (List Nat × List Cell) := do
  let (first, _) ← take? 1 cells
  let count ← length? (first.headD 0)
  let (octets, rest) ← take? count cells
  guard (octets.tail.all fun octet => 0x80 ≤ octet && octet < 0xc0)
  return (octets, rest)

end Octets

/-! ### Tags -/

namespace Tag

/-- Characters of tags besides those of names; the percent sign begins an escaped character. -/
def isUriMark (c : Char) : Bool := ";/?:@&=+$.!~*'()".toList.contains c

/-- Characters that a tag written in full holds besides those of other tags. -/
def isFullMark (c : Char) : Bool := c = ',' || c = '[' || c = ']'

/-- The octets of the characters of a tag. `fuel` bounds their number. -/
def uri? (full : Bool) : (fuel : Nat) → List Cell → Option (List UInt8 × List Cell)
  | 0, _ => none
  | fuel + 1, cells =>
    let c := Cell.next cells
    if c = '%' then do
      let (octets, rest) ← Octets.character? cells
      let (more, rest) ← uri? full fuel rest
      return (octets.map Nat.toUInt8 ++ more, rest)
    else if isNameChar c || isUriMark c || (full && isFullMark c) then
      (uri? full fuel (cells.drop 1)).map fun (more, rest) => (c.toNat.toUInt8 :: more, rest)
    else some ([], cells)

/-- Reads the octets of a tag; an octet of zero and what follows it do not count. The last component says
whether anything was read. -/
def octets? (full : Bool) (cells : List Cell) : Option (List UInt8 × Bool × List Cell) :=
  (uri? full (cells.length + 1) cells).map fun (octets, rest) =>
    (octets.takeWhile (· ≠ 0), !octets.isEmpty, rest)

/-- A tag as it is written. -/
structure Written where
  /-- The handle; empty when the suffix is the whole tag. -/
  handle : String
  /-- The octets of the suffix. -/
  suffix : List UInt8
  deriving DecidableEq, Inhabited

/-- Reads a tag between angle brackets. -/
def full? (cells : List Cell) : Option (Written × List Cell) := do
  let (suffix, isSome, rest) ← octets? true cells
  guard (isSome && Cell.next rest = '>')
  return (⟨"", suffix⟩, rest.drop 1)

/-- Reads a tag with a handle: the name between two exclamation marks, or one exclamation mark, which on its
own is a tag, too. -/
def short? (cells : List Cell) : Option (Written × List Cell) := do
  let (name, after) := Cell.span isNameChar (cells.drop 1)
  if Cell.next after = '!' then
    let (suffix, isSome, rest) ← octets? false (after.drop 1)
    guard isSome
    return (⟨String.ofList ('!' :: Cell.chars name ++ ['!']), suffix⟩, rest)
  else
    let (suffix, _, rest) ← octets? false (cells.drop 1)
    return (if suffix.isEmpty then ⟨"", ['!'.toNat.toUInt8]⟩ else ⟨"!", suffix⟩, rest)

/-- Reads a tag, after which the word or, in brackets, the entry has to end. -/
def read? (flow : Bool) (cells : List Cell) : Option (Written × List Cell) := do
  let (tag, rest) ← if Cell.next (cells.drop 1) = '<' then full? (cells.drop 2) else short? cells
  guard (endsWord (Cell.next rest) || (flow && Cell.next rest = ','))
  return (tag, rest)

/-- The text of a tag with the given octets. A tag whose octets are not those of a text is none that has a
meaning, and all of these are represented by the replacement character. -/
def text (octets : List UInt8) : String :=
  (String.fromUTF8? ⟨octets.toArray⟩).getD "\ufffd"

/-- What handles stand for. -/
abbrev Handles := List (String × List UInt8)

/-- What handles stand for unless a directive says otherwise. -/
def Handles.standard : Handles := [("!", "!".toUTF8.toList), ("!!", "tag:yaml.org,2002:".toUTF8.toList)]

/-- The tag that is meant, if its handle stands for something. -/
def Written.resolve? (handles : Handles) (tag : Written) : Option String :=
  if tag.handle.isEmpty then some (text tag.suffix)
  else (List.lookup tag.handle (handles ++ Handles.standard)).map fun start => text (start ++ tag.suffix)

end Tag

/-! ### Directives -/

/-- A line before a document that says how to read it. -/
inductive Directive where
  /-- The version of the format. -/
  | version (major minor : Nat)
  /-- What a handle of tags stands for. -/
  | define (handle : String) (start : List UInt8)
  deriving DecidableEq

namespace Directive

/-- Reads a number of at most nine digits. -/
def number? (cells : List Cell) : Option (Nat × List Cell) := do
  let (digits, rest) := Cell.span Char.isDigit cells
  guard (digits.length ≤ 9)
  let n ← digits? 10 (Cell.chars digits)
  return (n, rest)

/-- Reads a version: two numbers with a point between them. -/
def version? (cells : List Cell) : Option (Directive × List Cell) := do
  let (major, rest) ← number? (Cell.skip isBlank cells)
  guard (Cell.next rest = '.')
  let (minor, rest) ← number? (rest.drop 1)
  return (.version major minor, rest)

/-- Reads a handle: an exclamation mark, or a name between two of them. -/
def handleName? (cells : List Cell) : Option (String × List Cell) := do
  guard (Cell.next cells = '!')
  let (name, rest) := Cell.span isNameChar (cells.drop 1)
  if Cell.next rest = '!' then return (String.ofList ('!' :: Cell.chars name ++ ['!']), rest.drop 1)
  else
    guard name.isEmpty
    return ("!", rest)

/-- Reads a handle and what it stands for. -/
def handle? (cells : List Cell) : Option (Directive × List Cell) := do
  let (handle, rest) ← handleName? (Cell.skip isBlank cells)
  guard (isBlank (Cell.next rest))
  let (start, isSome, rest) ← Tag.octets? true (Cell.skip isBlank rest)
  guard (isSome && endsWord (Cell.next rest))
  return (.define handle start, rest)

/-- Reads a directive and the rest of its line, from after the percent sign. -/
def read? (cells : List Cell) : Option (Directive × List Cell) := do
  let (name, rest) := Cell.span isNameChar cells
  guard (endsWord (Cell.next rest))
  let (directive, rest) ←
    match String.ofList (Cell.chars name) with
    | "YAML" => version? rest
    | "TAG" => handle? rest
    | _ => none
  return (directive, ← Gap.skipLine? rest)

/-- True for versions of the format that can be read. -/
def isKnownVersion (major minor : Nat) : Bool := major = 1 && (minor = 1 || minor = 2)

/-- The handles that directives define. There is at most one version, which has to be known, and no handle
is defined twice. -/
def handles? (directives : List Directive) : Option Tag.Handles := do
  let versions := directives.filterMap fun d =>
    match d with
    | .version major minor => some (major, minor)
    | .define _ _ => none
  let handles := directives.filterMap fun d =>
    match d with
    | .version _ _ => none
    | .define handle start => some (handle, start)
  guard (versions.length ≤ 1 && versions.all fun (major, minor) => isKnownVersion major minor)
  guard ((handles.map Prod.fst).eraseDups.length = handles.length)
  return handles

end Directive

end TripleStore.Yaml
