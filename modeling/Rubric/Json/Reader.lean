import Rubric.Decimal.Scaling
import Rubric.Json.Value
import Rubric.Text.Digit

/-!
# Reading JSON

The reader accepts exactly the texts of the JSON grammar: no comments, no trailing
commas, no text after the value. It works on the list of characters that are left. Of
two steps in a row at least one uses up a character, so twice the number of characters
bounds the depth of the recursion.
-/

namespace Rubric

namespace Json

namespace Reader

def isBlank (c : Char) : Bool :=
  c = ' ' || c = '\n' || c = '\t' || c = '\r'

def skipBlanks (input : List Char) : List Char :=
  input.dropWhile isBlank

def digits (input : List Char) : List Char × List Char :=
  (input.takeWhile Char.isDigit, input.dropWhile Char.isDigit)

def natural (ds : List Char) : Nat :=
  ds.foldl (fun n c => n * 10 + Decimal.digitValue c) 0

/-! ## Numbers -/

/-- The digits after a point, if there is a point. At least one has to follow. -/
def fraction : List Char → Option (Option (List Char) × List Char)
  | '.' :: rest =>
      let (ds, rest) := digits rest
      if ds.isEmpty then none else some (some ds, rest)
  | rest => some (none, rest)

def exponentSign : List Char → Bool × List Char
  | '+' :: rest => (false, rest)
  | '-' :: rest => (true, rest)
  | rest => (false, rest)

/-- The digits of an exponent. At least one has to follow the sign. -/
def exponentDigits (input : List Char) : Option (Option (Bool × Nat) × List Char) :=
  let (negative, rest) := exponentSign input
  let (ds, rest) := digits rest
  if ds.isEmpty then none else some (some (negative, natural ds), rest)

def exponent : List Char → Option (Option (Bool × Nat) × List Char)
  | 'e' :: rest => exponentDigits rest
  | 'E' :: rest => exponentDigits rest
  | rest => some (none, rest)

def negativeMax : Nat := 0x8000000000000000

/-- A whole number of 64 bits, or the nearest double if it does not fit. Minus zero is
a double. -/
def wholeNumber (negative : Bool) (ds : List Char) : Json :=
  let n := natural ds
  if !negative && n ≤ Decimal.wordMax then integer n
  else if negative && 0 < n && n ≤ negativeMax then integer (-n)
  else
    match Decimal.read? ds [] false 0 with
    | some x => real (if negative then -x else x)
    | none => unusable

def realNumber (negative : Bool) (whole : List Char) (fraction : List Char)
    (exponent : Bool × Nat) : Json :=
  match Decimal.read? whole fraction exponent.1 exponent.2 with
  | some x => real (if negative then -x else x)
  | none => unusable

/-- A number without its sign. A leading zero stands alone. -/
def unsigned (negative : Bool) (input : List Char) : Option (Json × List Char) := do
  let (whole, rest) := digits input
  guard (!whole.isEmpty && (whole.length = 1 || whole.head? != some '0'))
  let (fractionDigits, rest) ← fraction rest
  let (exponentPart, rest) ← exponent rest
  match fractionDigits, exponentPart with
  | none, none => some (wholeNumber negative whole, rest)
  | ds, e => some (realNumber negative whole (ds.getD []) (e.getD (false, 0)), rest)

def number : List Char → Option (Json × List Char)
  | '-' :: rest => unsigned true rest
  | rest => unsigned false rest

/-! ## Texts -/

def hex4 : List Char → Option (Nat × List Char)
  | a :: b :: c :: d :: rest => do
      let a ← Digit.value? a
      let b ← Digit.value? b
      let c ← Digit.value? c
      let d ← Digit.value? d
      some (((a * 16 + b) * 16 + c) * 16 + d, rest)
  | _ => none

def isHighHalf (n : Nat) : Bool := 0xD800 ≤ n && n < 0xDC00

def isLowHalf (n : Nat) : Bool := 0xDC00 ≤ n && n < 0xE000

def joinHalves (high low : Nat) : Char :=
  Char.ofNat (0x10000 + (high - 0xD800) * 0x400 + (low - 0xDC00))

def lowHalf? : List Char → Option (Nat × List Char)
  | '\\' :: 'u' :: rest => do
      let (n, rest) ← hex4 rest
      if isLowHalf n then some (n, rest) else none
  | _ => none

/-- The character of a numeric escape. Half of a surrogate pair is no character. -/
def unicodeEscape (input : List Char) : Option (Option Char × List Char) := do
  let (n, rest) ← hex4 input
  if isHighHalf n then
    match lowHalf? rest with
    | some (low, rest) => some (some (joinHalves n low), rest)
    | none => some (none, rest)
  else if isLowHalf n then
    some (none, rest)
  else
    some (some (Char.ofNat n), rest)

def escape : List Char → Option (Option Char × List Char)
  | '"' :: rest => some (some '"', rest)
  | '\\' :: rest => some (some '\\', rest)
  | '/' :: rest => some (some '/', rest)
  | 'b' :: rest => some (some '\x08', rest)
  | 'f' :: rest => some (some '\x0c', rest)
  | 'n' :: rest => some (some '\n', rest)
  | 'r' :: rest => some (some '\r', rest)
  | 't' :: rest => some (some '\t', rest)
  | 'u' :: rest => unicodeEscape rest
  | _ => none

/-- The rest of a text after its opening quote. The text is nothing when an escape in it
has no character. The accumulated characters are in reverse order. -/
def textWithin : Nat → List Char → Option (List Char) → Option (Option String × List Char)
  | 0, _, _ => none
  | steps + 1, input, done =>
      match input with
      | [] => none
      | '"' :: rest => some (done.map fun cs => String.ofList cs.reverse, rest)
      | '\\' :: rest => do
          let (c, rest) ← escape rest
          textWithin steps rest (do some ((← c) :: (← done)))
      | c :: rest =>
          if c.toNat < 32 then none
          else textWithin steps rest (done.map (c :: ·))

def text (input : List Char) : Option (Option String × List Char) :=
  textWithin (input.length + 1) input (some [])

/-! ## Values -/

/-- An object from its members. A key that is no text makes it unusable. -/
def objectOf (members : List (Option String × Json)) : Json :=
  match members.mapM fun (key, value) => key.map fun k => (k, value) with
  | some members => object members
  | none => unusable

mutual

def valueWithin : Nat → List Char → Option (Json × List Char)
  | 0, _ => none
  | steps + 1, input =>
      match skipBlanks input with
      | 'n' :: 'u' :: 'l' :: 'l' :: rest => some (null, rest)
      | 't' :: 'r' :: 'u' :: 'e' :: rest => some (bool true, rest)
      | 'f' :: 'a' :: 'l' :: 's' :: 'e' :: rest => some (bool false, rest)
      | '"' :: rest => do
          let (s, rest) ← text rest
          some (match s with | some s => string s | none => unusable, rest)
      | '[' :: rest =>
          match skipBlanks rest with
          | ']' :: rest => some (array [], rest)
          | rest => do
              let (elements, rest) ← elementsWithin steps rest
              some (array elements, rest)
      | '\x7b' :: rest =>
          match skipBlanks rest with
          | '\x7d' :: rest => some (object [], rest)
          | rest => do
              let (members, rest) ← membersWithin steps rest
              some (objectOf members, rest)
      | rest => number rest

def elementsWithin : Nat → List Char → Option (List Json × List Char)
  | 0, _ => none
  | steps + 1, input => do
      let (element, rest) ← valueWithin steps input
      match skipBlanks rest with
      | ']' :: rest => some ([element], rest)
      | ',' :: rest => do
          let (elements, rest) ← elementsWithin steps rest
          some (element :: elements, rest)
      | _ => none

def membersWithin : Nat → List Char → Option (List (Option String × Json) × List Char)
  | 0, _ => none
  | steps + 1, input =>
      match skipBlanks input with
      | '"' :: rest => do
          let (key, rest) ← text rest
          match skipBlanks rest with
          | ':' :: rest => do
              let (value, rest) ← valueWithin steps rest
              match skipBlanks rest with
              | '\x7d' :: rest => some ([(key, value)], rest)
              | ',' :: rest => do
                  let (members, rest) ← membersWithin steps rest
                  some ((key, value) :: members, rest)
              | _ => none
          | _ => none
      | _ => none

end

end Reader

/-- The value that a text is, if the whole text is one value. -/
def parse? (text : String) : Option Json := do
  let input := text.toList
  let (value, rest) ← Reader.valueWithin (2 * input.length + 1) input
  if (Reader.skipBlanks rest).isEmpty then some value else none

end Json

end Rubric
