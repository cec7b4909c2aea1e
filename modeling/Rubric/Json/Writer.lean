import Rubric.Decimal.Layout
import Rubric.Json.Value

/-!
# Writing JSON

A value is written on one line without blanks, or over several lines with two blanks
for each level. Texts escape the quote, the backslash and the control characters only.
-/

namespace Rubric

namespace Json

/-- Numbers with one to sixteen digits before the point, and those with at most four
zeros after it, are written positionally. -/
def numberLayout : Decimal.Layout := ⟨-4, 16⟩

/-- The text of a double; what is not a number is written as null. -/
def writeFloat (x : Float) : String :=
  if x.isFinite then numberLayout.writeFloat x else "null"

def hexDigit (n : Nat) : Char :=
  Nat.digitChar (n % 16)

def escapeChar (c : Char) : List Char :=
  if c = '"' then ['\\', '"']
  else if c = '\\' then ['\\', '\\']
  else if c = '\x08' then ['\\', 'b']
  else if c = '\x0c' then ['\\', 'f']
  else if c = '\n' then ['\\', 'n']
  else if c = '\r' then ['\\', 'r']
  else if c = '\t' then ['\\', 't']
  else if c.toNat < 32 then ['\\', 'u', '0', '0', hexDigit (c.toNat / 16), hexDigit c.toNat]
  else [c]

def quote (s : String) : String :=
  "\"" ++ String.ofList (s.toList.flatMap escapeChar) ++ "\""

mutual

def compact : Json → String
  | null => "null"
  | bool true => "true"
  | bool false => "false"
  | integer n => toString n
  | real x => writeFloat x
  | string s => quote s
  | array elements => "[" ++ ",".intercalate (compactAll elements) ++ "]"
  | object members => "\x7b" ++ ",".intercalate (compactMembers members) ++ "\x7d"
  | unusable => "null"

def compactAll : List Json → List String
  | [] => []
  | element :: rest => element.compact :: compactAll rest

def compactMembers : List (String × Json) → List String
  | [] => []
  | (key, value) :: rest => (quote key ++ ":" ++ value.compact) :: compactMembers rest

end

def indent (level : Nat) : String :=
  String.ofList (List.replicate (2 * level) ' ')

def block (opening closing : String) (level : Nat) (items : List String) : String :=
  if items.isEmpty then
    opening ++ closing
  else
    opening ++ "\n" ++ ",\n".intercalate (items.map (indent (level + 1) ++ ·)) ++ "\n" ++
      indent level ++ closing

mutual

def prettyAt (level : Nat) : Json → String
  | array elements => block "[" "]" level (prettyAll (level + 1) elements)
  | object members => block "\x7b" "\x7d" level (prettyMembers (level + 1) members)
  | null => "null"
  | bool true => "true"
  | bool false => "false"
  | integer n => toString n
  | real x => writeFloat x
  | string s => quote s
  | unusable => "null"

def prettyAll (level : Nat) : List Json → List String
  | [] => []
  | element :: rest => prettyAt level element :: prettyAll level rest

def prettyMembers (level : Nat) : List (String × Json) → List String
  | [] => []
  | (key, value) :: rest =>
      (quote key ++ ": " ++ prettyAt level value) :: prettyMembers level rest

end

def pretty (value : Json) : String :=
  prettyAt 0 value

end Json

end Rubric
