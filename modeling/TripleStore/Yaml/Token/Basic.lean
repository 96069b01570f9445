import TripleStore.Yaml.Property
import TripleStore.Yaml.Scalar.Basic

/-!
# Tokens of YAML texts

The structure of a YAML text, with that of its lines made explicit: where the lines of a collection begin
and end there are tokens, as there are brackets around a collection within a line, and every key of a
mapping has a token before it.
-/

namespace TripleStore.Yaml

/-- A token. -/
inductive Token where
  /-- A line before a document. -/
  | directive (d : Directive)
  /-- The three hyphens that begin a document. -/
  | documentStart
  /-- The three points that end a document. -/
  | documentEnd
  /-- The place where the lines of a sequence begin. -/
  | sequenceStart
  /-- The place where the lines of a mapping begin. -/
  | mappingStart
  /-- The place where the lines of a collection end. -/
  | blockEnd
  /-- An opening bracket. -/
  | openBracket
  /-- A closing bracket. -/
  | closeBracket
  /-- An opening brace. -/
  | openBrace
  /-- A closing brace. -/
  | closeBrace
  /-- The hyphen before an item. -/
  | item
  /-- The comma between items. -/
  | comma
  /-- The place where a key begins, which may be a question mark. -/
  | key
  /-- The colon before a value. -/
  | value
  /-- A reference to the anchor with a number. -/
  | alias (anchor : Nat)
  /-- The anchor with a number. -/
  | anchor (anchor : Nat)
  /-- A tag. -/
  | tag (t : Tag.Written)
  /-- A scalar. -/
  | scalar (text : String) (style : Style)
  deriving DecidableEq

end TripleStore.Yaml
