import TripleStore.Yaml.Token.Lexer

/-!
# YAML nodes

The content of a YAML document: scalars, sequences and mappings, which may be anchors and refer to anchors.
A document is read from its tokens. A text holds at most one document.
-/

namespace TripleStore.Yaml

/-- A node of a YAML document. -/
inductive Node where
  /-- A scalar. -/
  | scalar (s : Scalar)
  /-- A list of nodes. -/
  | sequence (items : List Node)
  /-- Nodes with their keys, in the order of the document. -/
  | mapping (members : List (Node × Node))
  /-- A node with a number, which is not a reference and has no other number. -/
  | anchored (anchor : Nat) (node : Node)
  /-- A reference to the node with a number. -/
  | alias (anchor : Nat)
  deriving Inhabited

namespace Node

/-- The node of a place where nothing is written. -/
def blank : Node := .scalar { text := "" }

mutual

/-- The nodes with numbers, in the order in which they begin. -/
def anchors : Node → List (Nat × Node)
  | .scalar _ => []
  | .sequence items => anchorsOfItems items
  | .mapping members => anchorsOfMembers members
  | .anchored anchor node => (anchor, node) :: anchors node
  | .alias _ => []

/-- The nodes with numbers in a list. -/
def anchorsOfItems : List Node → List (Nat × Node)
  | [] => []
  | item :: rest => anchors item ++ anchorsOfItems rest

/-- The nodes with numbers among keys and their values. -/
def anchorsOfMembers : List (Node × Node) → List (Nat × Node)
  | [] => []
  | (key, value) :: rest => anchors key ++ anchors value ++ anchorsOfMembers rest

end

/-! ### Properties -/

/-- What stands before the content of a node. -/
structure Properties where
  /-- The number of the node. -/
  anchor? : Option Nat := none
  /-- The tag of the node. -/
  tag? : Option String := none

/-- Splits an anchor and a tag off the front, in any order. The handle of the tag has to be known. -/
def properties? (handles : Tag.Handles) : List Token → Option (Properties × List Token)
  | .anchor a :: .tag t :: rest => (t.resolve? handles).map fun tag => (⟨some a, some tag⟩, rest)
  | .tag t :: .anchor a :: rest => (t.resolve? handles).map fun tag => (⟨some a, some tag⟩, rest)
  | .anchor a :: rest => some (⟨some a, none⟩, rest)
  | .tag t :: rest => (t.resolve? handles).map fun tag => (⟨none, some tag⟩, rest)
  | tokens => some ({}, tokens)

/-- Gives a node its number, if it has one. -/
def Properties.mark (p : Properties) (node : Node) : Node :=
  match p.anchor? with
  | some anchor => .anchored anchor node
  | none => node

/-- The node of a scalar with its properties. -/
def Properties.scalar (p : Properties) (text : String) (style : Style) : Node :=
  p.mark (.scalar { text := text, style := style, tag? := p.tag? })

/-- The node of properties that stand alone. -/
def Properties.alone? (p : Properties) : Option Node :=
  if p.anchor?.isNone && p.tag?.isNone then none
  else some (p.scalar "" .plain)

/-! ### Nodes from tokens -/

/-- Where a node stands. -/
inductive Context where
  /-- Within brackets, where lines have no meaning. -/
  | flow
  /-- Where a collection of lines can begin. -/
  | block
  /-- After a key, where a sequence of lines need not be further in than the key. -/
  | member
  deriving DecidableEq

/-- True when one of some tokens is at the front. -/
def isNext (ends : List Token) (tokens : List Token) : Bool := tokens.head?.any ends.contains

mutual

/-- A node. `fuel` bounds the number of steps from node to node. -/
def ofTokens? (handles : Tag.Handles) :
    (fuel : Nat) → Context → List Token → Option (Node × List Token)
  | 0, _, _ => none
  | _ + 1, _, .alias anchor :: rest => some (.alias anchor, rest)
  | fuel + 1, context, tokens => do
    let (p, tokens) ← properties? handles tokens
    let list (result? : Option (List Node × List Token)) : Option (Node × List Token) :=
      result?.map fun (items, rest) => (p.mark (.sequence items), rest)
    let table (result? : Option (List (Node × Node) × List Token)) : Option (Node × List Token) :=
      result?.map fun (members, rest) => (p.mark (.mapping members), rest)
    match tokens, context with
    | .scalar text style :: rest, _ => return (p.scalar text style, rest)
    | .openBracket :: rest, _ => list (flowItems? handles fuel rest)
    | .openBrace :: rest, _ => table (flowMembers? handles fuel rest)
    | .item :: _, .member => list (items? handles fuel tokens)
    | .sequenceStart :: rest, .block => list (closedItems? handles fuel rest)
    | .sequenceStart :: rest, .member => list (closedItems? handles fuel rest)
    | .mappingStart :: rest, .block => table (members? handles fuel rest)
    | .mappingStart :: rest, .member => table (members? handles fuel rest)
    | _, _ => return (← p.alone?, tokens)

/-- A node, or a blank one if one of some tokens is at the front. -/
def ofTokensBefore? (handles : Tag.Handles) :
    (fuel : Nat) → (ends : List Token) → Context → List Token → Option (Node × List Token)
  | 0, _, _, _ => none
  | fuel + 1, ends, context, tokens =>
    if isNext ends tokens then some (blank, tokens) else ofTokens? handles fuel context tokens

/-- The items of a sequence of lines whose end has a token. -/
def closedItems? (handles : Tag.Handles) : (fuel : Nat) → List Token → Option (List Node × List Token)
  | 0, _ => none
  | _ + 1, .blockEnd :: rest => some ([], rest)
  | fuel + 1, .item :: rest => do
    let (item, rest) ← ofTokensBefore? handles fuel [.item, .blockEnd] .block rest
    let (items, rest) ← closedItems? handles fuel rest
    return (item :: items, rest)
  | _ + 1, _ => none

/-- The items of a sequence of lines that ends with its last item. -/
def items? (handles : Tag.Handles) : (fuel : Nat) → List Token → Option (List Node × List Token)
  | 0, _ => none
  | fuel + 1, .item :: rest => do
    let (item, rest) ← ofTokensBefore? handles fuel [.item, .key, .value, .blockEnd] .block rest
    let (items, rest) ← items? handles fuel rest
    return (item :: items, rest)
  | _ + 1, rest => some ([], rest)

/-- The members of a mapping of lines. A key without value has a blank one. -/
def members? (handles : Tag.Handles) :
    (fuel : Nat) → List Token → Option (List (Node × Node) × List Token)
  | 0, _ => none
  | _ + 1, .blockEnd :: rest => some ([], rest)
  | fuel + 1, .key :: rest => do
    let ends := [.key, .value, .blockEnd]
    let (key, rest) ← ofTokensBefore? handles fuel ends .member rest
    let (value, rest) ←
      match rest with
      | .value :: rest => ofTokensBefore? handles fuel ends .member rest
      | rest => some (blank, rest)
    let (members, rest) ← members? handles fuel rest
    return ((key, value) :: members, rest)
  | _ + 1, _ => none

/-- The items of a sequence in brackets up to the closing one. A comma may follow the last item. -/
def flowItems? (handles : Tag.Handles) : (fuel : Nat) → List Token → Option (List Node × List Token)
  | 0, _ => none
  | _ + 1, .closeBracket :: rest => some ([], rest)
  | fuel + 1, tokens => do
    let (item, rest) ←
      match tokens with
      | .key :: rest => (flowPair? handles fuel rest).map fun (pair, rest) => (.mapping [pair], rest)
      | tokens => ofTokens? handles fuel .flow tokens
    match rest with
    | .comma :: rest =>
      let (items, rest) ← flowItems? handles fuel rest
      return (item :: items, rest)
    | .closeBracket :: rest => return ([item], rest)
    | _ => none

/-- The only member of a mapping that is an item in brackets. If its key is blank, the token after the
key is left out. -/
def flowPair? (handles : Tag.Handles) : (fuel : Nat) → List Token → Option ((Node × Node) × List Token)
  | 0, _ => none
  | fuel + 1, tokens => do
    let (key, rest) ←
      if isNext [.value, .comma, .closeBracket] tokens then some (blank, tokens.drop 1)
      else ofTokens? handles fuel .flow tokens
    let (value, rest) ← flowValue? handles fuel .closeBracket rest
    return ((key, value), rest)

/-- The members of a mapping in braces up to the closing one. A comma may follow the last member. A node
that is not a key stands for a key with a blank value. -/
def flowMembers? (handles : Tag.Handles) :
    (fuel : Nat) → List Token → Option (List (Node × Node) × List Token)
  | 0, _ => none
  | _ + 1, .closeBrace :: rest => some ([], rest)
  | fuel + 1, tokens => do
    let (member, rest) ←
      match tokens with
      | .key :: rest => do
        let (key, rest) ← ofTokensBefore? handles fuel [.value, .comma, .closeBrace] .flow rest
        let (value, rest) ← flowValue? handles fuel .closeBrace rest
        some ((key, value), rest)
      | tokens => (ofTokens? handles fuel .flow tokens).map fun (key, rest) => ((key, blank), rest)
    match rest with
    | .comma :: rest =>
      let (members, rest) ← flowMembers? handles fuel rest
      return (member :: members, rest)
    | .closeBrace :: rest => return ([member], rest)
    | _ => none

/-- The value after a key within brackets, before a comma or the closing one; blank if it has none. -/
def flowValue? (handles : Tag.Handles) :
    (fuel : Nat) → (close : Token) → List Token → Option (Node × List Token)
  | 0, _, _ => none
  | fuel + 1, close, .value :: rest => ofTokensBefore? handles fuel [.comma, close] .flow rest
  | _ + 1, _, rest => some (blank, rest)

end

end Node

/-! ### Documents -/

/-- The content of a text. -/
structure Document where
  /-- The node of the document. -/
  root : Node
  deriving Inhabited

namespace Document

/-- Splits the directives off the front. -/
def spanDirectives : List Token → List Directive × List Token
  | .directive d :: rest =>
    let (directives, rest) := spanDirectives rest
    (d :: directives, rest)
  | rest => ([], rest)

/-- The node of a document. Directives need the marker that begins a document, and after that marker the
node may be left out. -/
def root? (tokens : List Token) : Option (Node × List Token) := do
  let (directives, rest) := spanDirectives tokens
  let handles ← Directive.handles? directives
  let fuel := 4 * tokens.length + 4
  match rest with
  | .documentStart :: rest =>
    match rest with
    | [] => return (Node.blank, [])
    | .directive _ :: _ => return (Node.blank, rest)
    | .documentStart :: _ => return (Node.blank, rest)
    | .documentEnd :: _ => return (Node.blank, rest)
    | _ => Node.ofTokens? handles fuel .block rest
  | _ => if directives.isEmpty then Node.ofTokens? handles fuel .block rest else none

/-- Reads a text. Nothing but markers that end a document may follow its document. A text without tokens
stands for a document where nothing is written. -/
def ofText? (text : String) : Option Document := do
  match ← Token.ofText? text with
  | [] => return ⟨Node.blank⟩
  | tokens =>
    let (node, rest) ← root? tokens
    guard (rest.all (· = .documentEnd))
    return ⟨node⟩

/-- The node with a number; of several ones with the same number, the last to begin. -/
def target? (document : Document) (anchor : Nat) : Option Node :=
  List.lookup anchor document.root.anchors.reverse

/-- The node that is meant where a node stands: of a reference, the node that it refers to. -/
def content? (document : Document) : Node → Option Node
  | .alias anchor => document.target? anchor
  | .anchored _ node => some node
  | node => some node

end Document

end TripleStore.Yaml
