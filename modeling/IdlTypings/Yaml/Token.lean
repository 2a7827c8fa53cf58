import IdlTypings.Yaml.Cursor

/-!
# Tokens of YAML

Indentation becomes visible in the tokens: a block starts where a line is indented further than the
block around it, and ends where a line is indented less.
-/

namespace IdlTypings.Yaml

inductive Style where
  | plain
  | quoted
  | block
  deriving DecidableEq, Inhabited, Repr

namespace Token

inductive Kind where
  | streamStart
  | streamEnd
  | version (major minor : Nat)
  | tagHandle (handle : List Char) (lead : Text)
  | documentStart
  | documentEnd
  | blockSequence
  | blockMapping
  | blockEnd
  | flowSequence
  | flowSequenceEnd
  | flowMapping
  | flowMappingEnd
  | blockEntry
  | flowEntry
  | key
  | value
  | alias (name : List Char)
  | anchor (name : List Char)
  | tag (handle : List Char) (suffix : Text)
  | scalar (value : List Char) (style : Style)
  deriving DecidableEq, Inhabited, Repr

end Token

structure Token where
  kind : Token.Kind
  start : Mark
  stop : Mark
  deriving DecidableEq, Inhabited, Repr

end IdlTypings.Yaml
