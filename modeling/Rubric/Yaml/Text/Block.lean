import Rubric.Yaml.Text

/-!
# Block texts

A block text is made of the indented lines below its indicator. A literal one keeps its
line ends and a folded one joins lines that do not start with a blank. The line ends
after the last line are kept, cut to one or dropped, as the indicator says.
-/

namespace Rubric

namespace Yaml

namespace Text

open Source

/-- What happens to the line ends after the last line. -/
inductive Chomping where
  | clip
  | strip
  | keep
deriving DecidableEq, Repr

/-- What the indicator of a block text says: whether lines are folded, what happens to the
last line ends, and how far the text is indented. -/
structure BlockHeader where
  folded : Bool
  chomping : Chomping := .clip
  indentation : Option Nat := none

namespace BlockHeader

def readChomping (header : BlockHeader) : Source → BlockHeader × Source
  | ('+', _) :: rest => ({ header with chomping := .keep }, rest)
  | ('-', _) :: rest => ({ header with chomping := .strip }, rest)
  | rest => (header, rest)

/-- Read how far the text is indented, if it is said. It is not zero. -/
def readIndentation (header : BlockHeader) : Source → Option (BlockHeader × Source)
  | (c, place) :: rest =>
      if c = '0' then none
      else if c.isDigit then some ({ header with indentation := some (c.toNat - '0'.toNat) }, rest)
      else some (header, (c, place) :: rest)
  | [] => some (header, [])

def read (folded : Bool) (source : Source) : Option (BlockHeader × Source) := do
  let (header, rest) ←
    match peek? source with
    | some c =>
        if c = '+' ∨ c = '-' then
          let (header, rest) := readChomping { folded } source
          readIndentation header rest
        else do
          let (header, rest) ← readIndentation { folded } source
          if header.indentation.isSome then some (header.readChomping rest)
          else some (header, rest)
    | none => some ({ folded }, source)
  some (header, ← skipLine? rest)

end BlockHeader

/-- The line ends of the empty lines that come next, the greatest width of their
indentation and the next line's, and what is left after them. Spaces up to the limit
count as indentation, and tabs may not stand there. -/
def emptyLines (limit : Option Nat) : Nat → Source → Option (List Char × Nat × Source)
  | width, [] => some ([], width, [])
  | width, (c, place) :: rest =>
      if isBreak c then do
        let (breaks, width, rest) ← emptyLines limit width rest
        some (c :: breaks, width, rest)
      else if (limit.all fun column => place.column < column) && isBlank c then
        if c = '\t' then none else emptyLines limit (max width (place.column + 1)) rest
      else
        some ([], width, (c, place) :: rest)

/-- What stands between two lines of a block text: the line end of the first one, and those
of the empty lines between. -/
structure Gap where
  lineEnd : List Char := []
  empty : List Char := []
  /-- Whether the line in front starts with a blank. -/
  afterBlank : Bool := false

namespace Gap

/-- What the gap becomes in front of a line. Two lines that do not start with a blank are
joined if the text is folded. -/
def text (folded : Bool) (beforeBlank : Bool) (gap : Gap) : List Char :=
  if folded && gap.lineEnd == ['\n'] && !gap.afterBlank && !beforeBlank then
    if gap.empty.isEmpty then [' '] else gap.empty
  else
    gap.lineEnd ++ gap.empty

def ending (chomping : Chomping) (gap : Gap) : List Char :=
  match chomping with
  | .strip => []
  | .clip => gap.lineEnd
  | .keep => gap.lineEnd ++ gap.empty

end Gap

def blockLines (header : BlockHeader) (indent : Nat) : Nat → Gap → Source → Option Reading
  | 0, _, _ => none
  | steps + 1, gap, source =>
      match source with
      | [] => some ⟨gap.ending header.chomping, []⟩
      | (c, place) :: _ =>
          if place.column = indent then do
            let (line, rest) := word (fun c => !isBreak c) source
            let lineEnd := (rest.take 1).map Prod.fst
            let (empty, _, rest) ← emptyLines (some indent) 0 (rest.drop 1)
            let more ← blockLines header indent steps ⟨lineEnd, empty, isBlank c⟩ rest
            some (more.prepend (gap.text header.folded (isBlank c) ++ line))
          else
            some ⟨gap.ending header.chomping, source⟩

/-- A block text after its indicator, inside a block that is indented to the given column.
Without an indentation of its own it takes that of its first line. -/
def block (folded : Bool) (parent : Option Nat) (source : Source) : Option Reading := do
  let (header, rest) ← BlockHeader.read folded source
  let limit := header.indentation.map fun more => (parent.getD 0) + more
  let (empty, width, rest) ← emptyLines limit 0 rest
  let inner := (parent.map Nat.succ).getD 0
  let indent := limit.getD (max width (max inner 1))
  blockLines header indent (rest.length + 1) { empty } rest

end Text

end Yaml

end Rubric
