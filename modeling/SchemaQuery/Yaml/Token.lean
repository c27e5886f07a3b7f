/-!
# Tokens of a YAML text

What a YAML text is made of.  Some tokens are written; the starts and ends of block
collections and the keys without a question mark follow from columns and colons.

## Main definitions

* `Style` - how a scalar is written.
* `Token` - a token.
-/

namespace SchemaQuery.Yaml

/-- How a scalar is written. -/
inductive Style where
  | plain
  | quoted
  | literal
  | folded
  deriving DecidableEq, Repr

/-- A token. -/
inductive Token where
  /-- The version of YAML that a document asks for. -/
  | version (major minor : Nat)
  /-- What a tag handle stands for. -/
  | handle (name uri : String)
  | documentStart
  | documentEnd
  | blockSequenceStart
  | blockMappingStart
  | blockEnd
  | flowSequenceStart
  | flowSequenceEnd
  | flowMappingStart
  | flowMappingEnd
  | flowEntry
  | blockEntry
  | key
  | value
  | reference (name : String)
  | anchor (name : String)
  | tag (handle suffix : String)
  | scalar (style : Style) (text : String)
  deriving DecidableEq, Repr

end SchemaQuery.Yaml
