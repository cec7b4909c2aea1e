import Rubric.Text.Digit
import Rubric.Yaml.Source

/-!
# Tags

A tag says what a value is. It is written in full between angles, or as a handle that
stands for the beginning of the tag and the rest of it. Tags are rows of octets, and an
octet may be written as a percent sign and two hexadecimal digits.
-/

namespace Rubric

namespace Yaml

abbrev Tag := List Nat

namespace Tag

open Source

def ofString (text : String) : Tag :=
  text.toList.map Char.toNat

def core : Tag := ofString "tag:yaml.org,2002:"

def null : Tag := core ++ ofString "null"

def bool : Tag := core ++ ofString "bool"

def int : Tag := core ++ ofString "int"

def float : Tag := core ++ ofString "float"

def bare : Tag := ofString "!"

def startsLocal (tag : Tag) : Bool :=
  tag.head? = some '!'.toNat

/-- Whether a tag is known to its document only. It has to be a text. -/
def isLocal (tag : Tag) : Bool :=
  startsLocal tag && (String.fromUTF8? ⟨(tag.map Nat.toUInt8).toArray⟩).isSome

/-! ## Octets -/

def octet? : Source → Option (Nat × Source)
  | ('%', _) :: (a, _) :: (b, _) :: rest => do
      let n ← Digit.row? 16 [a, b]
      some (n, rest)
  | _ => none

def trailing : Nat → Source → Option (List Nat × Source)
  | 0, source => some ([], source)
  | count + 1, source => do
      let (octet, rest) ← octet? source
      guard (0x80 ≤ octet && octet < 0xC0)
      let (more, rest) ← trailing count rest
      some (octet :: more, rest)

/-- How many octets continue a character, by its first one. -/
def trailingCount (octet : Nat) : Option Nat :=
  if octet < 0x80 then some 0
  else if octet < 0xC0 then none
  else if octet < 0xE0 then some 1
  else if octet < 0xF0 then some 2
  else if octet < 0xF8 then some 3
  else none

def escaped (source : Source) : Option (List Nat × Source) := do
  let (first, rest) ← octet? source
  let count ← trailingCount first
  let (more, rest) ← trailing count rest
  some (first :: more, rest)

/-- Whether a character may stand in a tag. Between angles and in a directive there are
more of them. -/
def isTagChar (full : Bool) (c : Char) : Bool :=
  isWord c ||
    c ∈ [';', '/', '?', ':', '@', '&', '=', '+', '$', '.', '%', '!', '~', '*', '\'', '(', ')'] ||
    (full && c ∈ [',', '[', ']'])

/-- The octets of a tag, and what is left after them. Every step uses up a character. -/
def octetsWithin (full : Bool) : Nat → Source → Option (List Nat × Source)
  | 0, _ => none
  | steps + 1, source =>
      match source with
      | ('%', _) :: _ => do
          let (octets, rest) ← escaped source
          let (more, rest) ← octetsWithin full steps rest
          some (octets ++ more, rest)
      | (c, place) :: rest =>
          if isTagChar full c then do
            let (more, rest) ← octetsWithin full steps rest
            some (c.toNat :: more, rest)
          else
            some ([], (c, place) :: rest)
      | [] => some ([], [])

/-- The octets of a tag up to the first zero, and what is left after all of them. -/
def octets (full : Bool) (source : Source) : Option (List Nat × Source) := do
  let (octets, rest) ← octetsWithin full (source.length + 1) source
  some (octets.takeWhile fun octet => octet ≠ 0, rest)

/-- The octets of a tag. At least one character has to be there. -/
def someOctets (full : Bool) (source : Source) : Option (List Nat × Source) := do
  guard ((source.head?.map fun placed => isTagChar full placed.1).getD false)
  octets full source

/-! ## Handles -/

/-- The word after an exclamation mark, whether a second mark closes it to a handle, and
what is left after it. -/
def handleWord : Source → Option (List Char × Bool × Source)
  | ('!', _) :: rest =>
      let (name, rest) := word isWord rest
      match rest with
      | ('!', _) :: after => some (name, true, after)
      | _ => some (name, false, rest)
  | _ => none

def closedHandle (name : List Char) : String :=
  "!" ++ String.ofList name ++ "!"

/-- The handle that stands for an exclamation mark. -/
def openHandle : String := "!"

/-- A tag as it is written. -/
inductive Written where
  /-- A tag in full. -/
  | full (tag : Tag)
  /-- A handle and the rest of the tag. -/
  | short (handle : String) (rest : Tag)
deriving DecidableEq, Repr

def readFull (source : Source) : Option (Written × Source) := do
  let (tag, rest) ← someOctets true source
  match rest with
  | ('>', _) :: rest => some (.full tag, rest)
  | _ => none

/-- Read a tag with a handle. An exclamation mark alone is a tag of its own. -/
def readShort (source : Source) : Option (Written × Source) := do
  let (name, closed, rest) ← handleWord source
  if closed then
    let (tag, rest) ← someOctets false rest
    some (.short (closedHandle name) tag, rest)
  else
    let (more, rest) ← octets false rest
    let tag := name.map Char.toNat ++ more
    some (if tag.isEmpty then .full bare else .short openHandle tag, rest)

/-- Read a tag. A blank has to follow, or a comma inside brackets. -/
def read (flow : Bool) (source : Source) : Option (Written × Source) := do
  let (tag, rest) ←
    match source with
    | ('!', _) :: ('<', _) :: rest => readFull rest
    | source => readShort source
  guard (atBlank rest || (flow && peek? rest = some ','))
  some (tag, rest)

end Tag

/-! ## Directives -/

/-- What a line with a percent sign says about the document below it. -/
inductive Directive where
  /-- The version of the language. -/
  | version (major minor : Nat)
  /-- What a handle stands for. -/
  | handle (name : String) (expansion : Tag)
deriving DecidableEq, Repr

namespace Directive

open Source

def versionDigits : Nat := 9

def number (source : Source) : Option (Nat × Source) := do
  let (digits, rest) := word Char.isDigit source
  guard (digits.length ≤ versionDigits)
  let n ← Digit.row? 10 digits
  some (n, rest)

def readVersion (source : Source) : Option (Directive × Source) := do
  let (major, rest) ← number (skipBlanks source)
  match rest with
  | ('.', _) :: rest => do
      let (minor, rest) ← number rest
      some (.version major minor, rest)
  | _ => none

def readHandle (source : Source) : Option (Directive × Source) := do
  let (name, closed, rest) ← Tag.handleWord (skipBlanks source)
  guard (closed || name.isEmpty)
  guard ((peek? rest).any isBlank)
  let (expansion, rest) ← Tag.someOctets true (skipBlanks rest)
  guard (atBlank rest)
  some (.handle (if closed then Tag.closedHandle name else Tag.openHandle) expansion, rest)

def read (source : Source) : Option (Directive × Source) := do
  let (name, rest) := word isWord source
  guard (atBlank rest)
  let (directive, rest) ←
    if name = "YAML".toList then readVersion rest
    else if name = "TAG".toList then readHandle rest
    else none
  some (directive, ← skipLine? rest)

end Directive

end Yaml

end Rubric
