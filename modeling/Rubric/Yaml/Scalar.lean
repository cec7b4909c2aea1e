import Rubric.Json.Value
import Rubric.Text.Digit

/-!
# Plain YAML scalars

A scalar written without quotes is null, a truth value, a number or else a text. Numbers
are whole numbers in four bases, or decimals that are read to the nearest double. A row
of digits that starts with a needless zero is a text.
-/

namespace Rubric

namespace Yaml

namespace Scalar

def magnitude? : List Char → Option Nat
  | '0' :: 'x' :: digits => Digit.row? 16 digits
  | '0' :: 'o' :: digits => Digit.row? 8 digits
  | '0' :: 'b' :: digits => Digit.row? 2 digits
  | digits => Digit.row? 10 digits

def signed : List Char → Bool × List Char
  | '-' :: rest => (true, rest)
  | '+' :: rest => (false, rest)
  | rest => (false, rest)

def hasNeedlessZero (text : List Char) : Bool :=
  match (signed text).2 with
  | '0' :: c :: rest => (c :: rest).all Char.isDigit
  | _ => false

/-! ## Whole numbers -/

/-- Whether a whole number fits into a word of the given number of bits, signed or
unsigned. -/
def fits (bits : Nat) (n : Int) : Bool :=
  if n < 0 then n.natAbs ≤ Nat.pow 2 (bits - 1) else n.natAbs < Nat.pow 2 bits

/-- The whole number that a text is, if it fits into 128 bits. -/
def whole? (text : List Char) : Option Int := do
  guard (!hasNeedlessZero text)
  let (negative, rest) := signed text
  let n ← magnitude? rest
  let n := if negative then -(n : Int) else n
  if fits 128 n then some n else none

def ofWhole (n : Int) : Option Json :=
  if fits 64 n then some (.integer n) else none

def integer? (text : List Char) : Option Json :=
  (whole? text).bind ofWhole

/-! ## Decimals -/

def digits (text : List Char) : List Char × List Char :=
  (text.takeWhile Char.isDigit, text.dropWhile Char.isDigit)

def exponent? : List Char → Option Int
  | [] => some 0
  | c :: rest =>
      if c = 'e' ∨ c = 'E' then
        let (negative, ds) := signed rest
        (Digit.row? 10 ds).map fun n => if negative then -(n : Int) else n
      else none

/-- The double nearest to a decimal, if it is in range. Exponents that decide the answer
alone are not worked out. -/
def nearest? (ds : List Char) (exponent : Int) : Option Float :=
  let significand := (Digit.row? 10 ds).getD 0
  let magnitude := ds.length + exponent
  if significand = 0 ∨ magnitude < -400 then some 0.0
  else if 400 < magnitude ∧ 400 < exponent then none
  else
    let x := Float.ofScientific significand (exponent < 0) exponent.natAbs
    if x.isFinite then some x else none

def decimal? (text : List Char) : Option Float := do
  let (whole, rest) := digits text
  let (fraction, rest) :=
    match rest with
    | '.' :: rest => digits rest
    | rest => ([], rest)
  guard (!(whole.isEmpty && fraction.isEmpty))
  let exponent ← exponent? rest
  nearest? (whole ++ fraction) (exponent - fraction.length)

def real? (text : List Char) : Option Float :=
  let (negative, rest) := signed text
  (decimal? rest).map fun x => if negative then -x else x

/-- Texts for numbers that are not finite. They have no value of their own. -/
def notFinite : List String :=
  [".inf", ".Inf", ".INF", "+.inf", "+.Inf", "+.INF", "-.inf", "-.Inf", "-.INF",
   ".nan", ".NaN", ".NAN"]

def number? (text : String) : Option Json :=
  if text ∈ notFinite then some .null else (real? text.toList).map .real

/-! ## All scalars -/

def null? (text : String) : Option Json :=
  if text ∈ ["~", "null", "Null", "NULL"] then some .null else none

def bool? (text : String) : Option Json :=
  if text ∈ ["true", "True", "TRUE"] then some (.bool true)
  else if text ∈ ["false", "False", "FALSE"] then some (.bool false)
  else none

/-- The value of a plain scalar. Nothing is the answer for whole numbers that no value
can hold. -/
def resolve (text : String) : Option Json :=
  if text.isEmpty then some .null
  else
    match (null? text).orElse fun _ => bool? text with
    | some value => some value
    | none =>
        match whole? text.toList with
        | some n => ofWhole n
        | none =>
            let number := if hasNeedlessZero text.toList then none else number? text
            some (number.getD (.string text))

end Scalar

end Yaml

end Rubric
