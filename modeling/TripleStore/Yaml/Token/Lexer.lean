import TripleStore.Yaml.Scalar.Lines
import TripleStore.Yaml.Scalar.Plain
import TripleStore.Yaml.Scalar.Quoted
import TripleStore.Yaml.Token.Layout

/-!
# From the characters of a YAML text to its tokens

One token is read at a time. Before each one, collections of lines end that are further in than its column.
-/

namespace TripleStore.Yaml

namespace Layout

/-- Adds the token that a scalar in quotes or a plain scalar gives. A plain scalar that ended on a later
line allows a key after it. -/
def scalar? (p : Place) (cells : List Cell) (l : Layout) : Option (Layout × List Cell) := do
  let c := Cell.next cells
  if c = '"' || c = '\'' then
    let (text, rest) ← Quoted.read? c (cells.drop 1)
    return (← l.node? (.scalar text .quoted) p, rest)
  else
    guard (Plain.begins l.inFlow cells)
    let (text, broken, rest) ← Plain.read? l.inFlow l.margin cells
    return ((← l.node? (.scalar text .plain) p).allowKey broken, rest)

/-- Adds the token that a name or tag after its sign gives, or that of a scalar of lines. -/
def marked? (mark : Char) (p : Place) (cells : List Cell) (l : Layout) : Option (Layout × List Cell) := do
  match mark with
  | '*' =>
    let (name, rest) ← name? (cells.drop 1)
    return (← l.alias? name p, rest)
  | '&' =>
    let (name, rest) ← name? (cells.drop 1)
    return (← l.anchor? name p, rest)
  | '!' =>
    let (tag, rest) ← Tag.read? l.inFlow cells
    return (← l.node? (.tag tag) p, rest)
  | '|' =>
    let (text, rest) ← Lines.read? false l.margin (cells.drop 1)
    return (← l.lines? (.scalar text .literal), rest)
  | '>' =>
    let (text, rest) ← Lines.read? true l.margin (cells.drop 1)
    return (← l.lines? (.scalar text .folded), rest)
  | _ => l.scalar? p cells

/-- Adds the token at the front, which is not the end of the text. Hyphens, question marks and colons are
tokens where the word ends; in brackets question marks and colons always are. -/
def token? (cells : List Cell) (l : Layout) : Option (Layout × List Cell) := do
  let c := Cell.next cells
  let p := Cell.front cells
  let ends := endsWord (Cell.next (cells.drop 1))
  if p.column = 0 && c = '%' then
    let l ← l.closeAll?
    let (directive, rest) ← Directive.read? (cells.drop 1)
    return (l.push (.directive directive), rest)
  else if Cell.isMarker '-' cells then return ((← l.closeAll?).push .documentStart, cells.drop 3)
  else if Cell.isMarker '.' cells then return ((← l.closeAll?).push .documentEnd, cells.drop 3)
  else if c = '[' then return (← l.enter? .openBracket p, cells.drop 1)
  else if c = '\x7b' then return (← l.enter? .openBrace p, cells.drop 1)
  else if c = ']' then return (← l.leave? .closeBracket, cells.drop 1)
  else if c = '\x7d' then return (← l.leave? .closeBrace, cells.drop 1)
  else if c = ',' then return (← l.comma?, cells.drop 1)
  else if c = '-' && ends then return (← l.item? p, cells.drop 1)
  else if c = '?' && (l.inFlow || ends) then return (← l.key? p, cells.drop 1)
  else if c = ':' && (l.inFlow || ends) then return (← l.value? p, cells.drop 1)
  else if (c = '|' || c = '>') && l.inFlow then none
  else l.marked? c p cells

/-- Adds the tokens up to the end of the text. `fuel` bounds their number. -/
def tokens? : (fuel : Nat) → List Cell → Layout → Option Layout
  | 0, _, _ => none
  | fuel + 1, cells, l => do
    let (keyAllowed, cells) := Gap.skip l.inFlow l.keyAllowed false cells
    let p := Cell.front cells
    let l ← (l.allowKey keyAllowed).dropDistant? p
    if Cell.next cells = endMark then l.closeAll?
    else
      let (l, cells) ← (l.closeBeyond p.column).token? cells
      tokens? fuel cells l

end Layout

/-- The tokens of a text. -/
def Token.ofText? (text : String) : Option (List Token) := do
  let cells ← Cell.ofText? text
  let l ← Layout.tokens? (cells.length + 1) cells {}
  return l.tokens.toList

end TripleStore.Yaml
