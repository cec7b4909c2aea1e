import Rubric.Yaml.Tag

/-!
# Tokens

A YAML text is read as a row of tokens. Blocks, which are written by indentation alone,
are opened and closed by tokens of their own, and every key is announced in front of it.
-/

namespace Rubric

namespace Yaml

/-- A token. -/
inductive Token where
  | directive (directive : Directive)
  | documentStart
  | documentEnd
  /-- A sequence of items with dashes starts. -/
  | sequenceStart
  /-- A mapping without braces starts. -/
  | mappingStart
  /-- The last sequence or mapping of these two kinds ends. -/
  | blockEnd
  | bracketOpen
  | bracketClose
  | braceOpen
  | braceClose
  /-- A dash in front of an item. -/
  | item
  /-- A comma. -/
  | comma
  /-- A key follows. -/
  | key
  /-- The value of a key follows. -/
  | value
  /-- The name that a value gets. -/
  | anchor (name : String)
  /-- The value with a name. -/
  | reference (name : String)
  | tag (tag : Tag.Written)
  | scalar (plain : Bool) (text : String)
deriving DecidableEq, Repr

end Yaml

end Rubric
