/-!
# Source locations

A location is a pair of positions in the text a program was written in. Front ends
that keep no positions leave every number zero, and such a location counts as unknown.
-/

namespace Rubric

/-- A place in a source text: line, column and distance from the start. -/
structure Position where
  line : Nat := 0
  column : Nat := 0
  offset : Nat := 0
deriving DecidableEq, Repr, Inhabited

/-- The stretch of source text that a construct covers. -/
structure Span where
  start : Position := {}
  stop : Position := {}
deriving DecidableEq, Repr, Inhabited

namespace Span

def unknown : Span := {}

def isKnown (span : Span) : Bool :=
  span != unknown

end Span

/-- A name as it was written: its text, an optional remark of the front end, and the
place it stands at. -/
structure Symbol where
  value : String
  description : Option String := none
  loc : Span := {}
deriving DecidableEq, Repr, Inhabited

end Rubric
