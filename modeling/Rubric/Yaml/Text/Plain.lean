import Rubric.Yaml.Text

/-!
# Plain texts

A text without quotes ends before a colon with a blank after it, before a comment with a
blank in front of it, and inside brackets before a character with a meaning there. It may
go on over line ends as long as its lines are indented.
-/

namespace Rubric

namespace Yaml

namespace Text

open Source

def isFlowIndicator (c : Char) : Bool :=
  c ∈ [',', '[', ']', '\x7b', '\x7d']

def isIndicator (c : Char) : Bool :=
  isFlowIndicator c ||
    c ∈ ['-', '?', ':', '#', '&', '*', '!', '|', '>', '\'', '"', '%', '@', '`']

/-- Whether a plain text can start here. Some indicators start one if no blank follows. -/
def startsPlain (flow : Bool) : Source → Bool
  | [] => false
  | (c, _) :: rest =>
      if isBlank c || isBreak c then false
      else if c = '-' then !atBlank rest
      else if c = '?' ∨ c = ':' then !flow && !atBlank rest
      else !isIndicator c

/-- Whether a colon stands too close to a character with a meaning inside brackets. -/
def isCrowded : Source → Bool
  | (':', _) :: (c, _) :: _ => isFlowIndicator c || c = '?'
  | _ => false

/-- Whether a plain text is over before the next character, whatever stands in front of
it. -/
def endsPlain (flow : Bool) : Source → Bool
  | [] => true
  | (c, _) :: rest => (c = ':' && atBlank rest) || (flow && isFlowIndicator c)

/-- Whether a plain text is over before the next character, which follows spacing. -/
def endsAfterSpacing (flow : Bool) (indent : Nat) : Source → Bool
  | [] => true
  | (c, place) :: rest =>
      (!flow && place.column < indent) || atMarker ((c, place) :: rest) || c = '#'

/-- A plain text, and whether a line end was passed after its last character. -/
structure PlainReading extends Reading where
  lineEnded : Bool

/-- The rest of a plain text whose lines are indented to the given column at least. The
blanks and line ends since its last character, latest first, wait until it is known
whether more text follows. Tabs may not stand in for the indentation. -/
def plainFrom (flow : Bool) (indent : Nat) : List Char → Source → Option PlainReading
  | waiting, [] => some ⟨⟨[], []⟩, waiting.any isBreak⟩
  | waiting, (c, place) :: rest =>
      let here := (c, place) :: rest
      if isBlank c || isBreak c then
        if c = '\t' && place.column < indent && waiting.any isBreak then none
        else plainFrom flow indent (c :: waiting) rest
      else if !waiting.isEmpty && endsAfterSpacing flow indent here then
        some ⟨⟨[], here⟩, waiting.any isBreak⟩
      else if flow && isCrowded here then
        none
      else if endsPlain flow here then
        some ⟨⟨[], here⟩, waiting.any isBreak⟩
      else do
        let more ← plainFrom flow indent [] rest
        some { more with text := foldSpacing waiting.reverse ++ c :: more.text }

def plain (flow : Bool) (indent : Nat) (source : Source) : Option PlainReading :=
  plainFrom flow indent [] source

end Text

end Yaml

end Rubric
