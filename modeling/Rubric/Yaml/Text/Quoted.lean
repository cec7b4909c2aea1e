import Rubric.Text.Digit
import Rubric.Yaml.Text

/-!
# Texts between quotes

Between single quotes only the quote itself has a second meaning and is written twice.
Between double quotes a backslash introduces a character by its letter or number, or
takes back the line end that it stands in front of. Both kinds are folded.
-/

namespace Rubric

namespace Yaml

namespace Text

open Source

/-- What is left after blanks and line ends inside quotes. A document may not end
there. -/
def continued? (rest : Source) : Option Source :=
  if atMarker rest then none else some rest

/-! ## Single quotes -/

/-- The rest of a text after its opening single quote. Every step uses up a character. -/
def singleWithin : Nat → Source → Option Reading
  | 0, _ => none
  | steps + 1, source =>
      match source with
      | [] => none
      | ('\'', _) :: ('\'', _) :: rest => (singleWithin steps rest).map (Reading.prepend ['\''])
      | ('\'', _) :: rest => some ⟨[], rest⟩
      | (c, place) :: rest =>
          if isBlank c || isBreak c then do
            let (space, rest) := spacing ((c, place) :: rest)
            let more ← singleWithin steps (← continued? rest)
            some (more.prepend (foldSpacing space))
          else
            (singleWithin steps rest).map (Reading.prepend [c])

/-! ## Double quotes -/

def numbered (count : Nat) (source : Source) : Option (Char × Source) := do
  let ds := source.take count
  guard (ds.length = count)
  let n ← Digit.row? 16 (ds.map Prod.fst)
  guard n.isValidChar
  some (Char.ofNat n, source.drop count)

def letterEscapes : List (Char × Nat) :=
  [('0', 0x00), ('a', 0x07), ('b', 0x08), ('t', 0x09), ('n', 0x0A), ('v', 0x0B), ('f', 0x0C),
   ('r', 0x0D), ('e', 0x1B), (' ', 0x20), ('"', 0x22), ('/', 0x2F), ('\\', 0x5C), ('N', 0x85),
   ('_', 0xA0), ('L', 0x2028), ('P', 0x2029), ('\t', 0x09)]

def escape : Source → Option (Char × Source)
  | ('x', _) :: rest => numbered 2 rest
  | ('u', _) :: rest => numbered 4 rest
  | ('U', _) :: rest => numbered 8 rest
  | (c, _) :: rest =>
      (letterEscapes.find? fun entry => entry.1 = c).map fun entry => (Char.ofNat entry.2, rest)
  | [] => none

/-- The rest of a text after its opening double quote. Every step uses up a character. -/
def doubleWithin : Nat → Source → Option Reading
  | 0, _ => none
  | steps + 1, source =>
      match source with
      | [] => none
      | ('"', _) :: rest => some ⟨[], rest⟩
      | ('\\', _) :: rest =>
          if !rest.isEmpty && atLineEnd rest then do
            let (space, rest) := spacing (rest.drop 1)
            let more ← doubleWithin steps (← continued? rest)
            some (more.prepend (space.filter isBreak))
          else do
            let (c, rest) ← escape rest
            let more ← doubleWithin steps rest
            some (more.prepend [c])
      | (c, place) :: rest =>
          if isBlank c || isBreak c then do
            let (space, rest) := spacing ((c, place) :: rest)
            let more ← doubleWithin steps (← continued? rest)
            some (more.prepend (foldSpacing space))
          else
            (doubleWithin steps rest).map (Reading.prepend [c])

def quoted (quote : Char) (source : Source) : Option Reading :=
  if quote = '"' then doubleWithin (source.length + 1) source
  else singleWithin (source.length + 1) source

end Text

end Yaml

end Rubric
