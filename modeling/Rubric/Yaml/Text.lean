import Rubric.Yaml.Source

/-!
# Texts in YAML

A text that runs over several lines is folded: blanks around a line end are dropped, a
single line feed becomes a blank, and of several the first is dropped. Separators of
lines and paragraphs are kept.
-/

namespace Rubric

namespace Yaml

namespace Text

open Source

/-- A text and what is left after it. -/
structure Reading where
  text : List Char
  rest : Source

def Reading.prepend (cs : List Char) (reading : Reading) : Reading :=
  { reading with text := cs ++ reading.text }

def fold : List Char → List Char
  | ['\n'] => [' ']
  | '\n' :: breaks => breaks
  | breaks => breaks

/-- What blanks and line ends between two words become. -/
def foldSpacing (space : List Char) : List Char :=
  let breaks := space.filter isBreak
  if breaks.isEmpty then space else fold breaks

def spacing (source : Source) : List Char × Source :=
  word (fun c => isBlank c || isBreak c) source

end Text

end Yaml

end Rubric
