import SchemaForms.Yaml.Cursor

/-!
# Tokens of a YAML text

A `Token` is a piece of a text with its place. Indentation and the pairs of a mapping appear as
tokens of their own: the start of a block and its end, a key and its value.
-/

namespace SchemaForms.Yaml

/-- What a line that starts with a percent sign says. -/
inductive Directive where
  | version (major : Nat)
  | tag (handle stem : String)
  | other
  deriving DecidableEq, Repr

/-- What a token is. -/
inductive TokenKind where
  | streamEnd
  | directive (d : Directive)
  | documentStart
  | documentEnd
  | blockSequenceStart
  | blockMappingStart
  | blockEnd
  | flowSequenceStart
  | flowSequenceEnd
  | flowMappingStart
  | flowMappingEnd
  | blockEntry
  | flowEntry
  | key
  | value
  | alias (name : String)
  | anchor (name : String)
  /-- A tag with its handle, or a whole tag without one. -/
  | tag (handle : Option String) (suffix : String)
  /-- A scalar; only a plain one may mean something else than its text. -/
  | scalar (text : String) (plain : Bool)
  deriving DecidableEq, Repr

/-- A token with the places where it starts and stops. -/
structure Token where
  kind : TokenKind
  start : Mark
  stop : Mark
  deriving DecidableEq, Repr

end SchemaForms.Yaml
