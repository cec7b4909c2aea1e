/-!
# YAML source text

Lines and columns give YAML its structure, so every character is kept together with its
place. This module places characters, tells blanks and line ends from the rest, and
finds the next character that is neither spacing nor comment.
-/

namespace Rubric

namespace Yaml

/-- Where a character stands: its line, its column in characters, and the number of bytes
before it. -/
structure Place where
  line : Nat := 0
  column : Nat := 0
  offset : Nat := 0
deriving DecidableEq, Repr

abbrev Source := List (Char × Place)

namespace Source

/-! ## Characters -/

/-- The mark that may stand in front of a line and then counts for nothing but a column. -/
def byteOrderMark : Char := Char.ofNat 0xFEFF

def isReadable (c : Char) : Bool :=
  let n := c.toNat
  c = '\t' || c = '\n' || c = '\r' || (0x20 ≤ n && n ≤ 0x7E) || n = 0x85 ||
    (0xA0 ≤ n && n ≤ 0xFFFD) || 0x10000 ≤ n

def isBlank (c : Char) : Bool :=
  c = ' ' || c = '\t'

/-- Whether a character ends a line: a line feed, or a separator of lines or of
paragraphs. -/
def isBreak (c : Char) : Bool :=
  c = '\n' || c.toNat = 0x2028 || c.toNat = 0x2029

def isWord (c : Char) : Bool :=
  c.isAlphanum || c = '_' || c = '-'

/-! ## Placing -/

/-- Write every carriage return, line feed, pair of both and next-line mark as a single
line feed. -/
def normalize : List Char → List Char
  | '\r' :: '\n' :: rest => '\n' :: normalize rest
  | '\r' :: rest => '\n' :: normalize rest
  | c :: rest => (if c = Char.ofNat 0x85 then '\n' else c) :: normalize rest
  | [] => []

def placeAfter (c : Char) (place : Place) : Place :=
  let offset := place.offset + c.utf8Size
  if isBreak c then ⟨place.line + 1, 0, offset⟩ else ⟨place.line, place.column + 1, offset⟩

def placeFrom : Place → List Char → Source
  | _, [] => []
  | place, c :: rest => (c, place) :: placeFrom (placeAfter c place) rest

def ofString (text : String) : Option Source :=
  if text.toList.all isReadable then some (placeFrom {} (normalize text.toList)) else none

/-! ## Looking ahead -/

def peek? (source : Source) : Option Char :=
  source.head?.map Prod.fst

def atLineEnd : Source → Bool
  | [] => true
  | (c, _) :: _ => isBreak c

def atBlank : Source → Bool
  | [] => true
  | (c, _) :: _ => isBlank c || isBreak c

/-- What is left after three marks at the start of a line, if they stand alone. -/
def marker? (mark : Char) : Source → Option Source
  | (a, place) :: (b, _) :: (c, _) :: rest =>
      if place.column = 0 ∧ a = mark ∧ b = mark ∧ c = mark ∧ atBlank rest then some rest else none
  | _ => none

def atMarker (source : Source) : Bool :=
  (marker? '-' source).isSome || (marker? '.' source).isSome

/-! ## Moving on -/

def word (test : Char → Bool) (source : Source) : List Char × Source :=
  ((source.takeWhile fun placed => test placed.1).map Prod.fst,
    source.dropWhile fun placed => test placed.1)

def skipBlanks (source : Source) : Source :=
  source.dropWhile fun placed => isBlank placed.1

/-- What is left after the blanks and the comment that end a line, and after the line end
itself. Nothing else may stand there. -/
def skipLine? (source : Source) : Option Source :=
  let rest := skipBlanks source
  let rest :=
    if peek? rest = some '#' then rest.dropWhile fun placed => !isBreak placed.1 else rest
  if atLineEnd rest then some (rest.drop 1) else none

/-- What is left after blanks, comments and line ends, and whether a key may start there.
Outside brackets it may at the start of a line. Tabs count as blanks inside brackets and
where no key may start. -/
def skipSpacing (flow : Bool) : Bool → Bool → Source → Bool × Source
  | keyAllowed, _, [] => (keyAllowed, [])
  | keyAllowed, comment, (c, place) :: rest =>
      if isBreak c then
        skipSpacing flow (keyAllowed || !flow) false rest
      else if comment || c = '#' then
        skipSpacing flow keyAllowed true rest
      else if c = ' ' || (c = '\t' && (flow || !keyAllowed)) ||
          (c = byteOrderMark && place.column = 0) then
        skipSpacing flow keyAllowed false rest
      else
        (keyAllowed, (c, place) :: rest)

end Source

end Yaml

end Rubric
