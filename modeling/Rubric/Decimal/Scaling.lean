/-!
# Reading numbers by scaling

A decimal is read into a double by taking as many leading digits as fit into 64 bits,
rounding them to the nearest double, and multiplying or dividing by a power of ten that
is itself the nearest double. For numbers of up to fifteen digits and small exponents
both steps are exact and the result is the nearest double.
-/

namespace Rubric

namespace Decimal

def wordMax : Nat := 0xFFFFFFFFFFFFFFFF

def digitValue (c : Char) : Nat :=
  c.toNat - '0'.toNat

/-- Append digits while the number fits into 64 bits. The second component counts the
digits that were appended. -/
def appendDigits : List Char → Nat → Nat → Nat × Nat
  | [], significand, taken => (significand, taken)
  | c :: rest, significand, taken =>
      let next := significand * 10 + digitValue c
      if next ≤ wordMax then appendDigits rest next (taken + 1) else (significand, taken)

def powerOfTen (n : Nat) : Float :=
  Float.ofScientific 1 false n

/-- Scale a double by a power of ten, at most 308 places at a time. Nothing is the
answer when the result is beyond the range of doubles. -/
def scaleWithin : Nat → Float → Int → Option Float
  | 0, _, _ => some 0.0
  | steps + 1, x, exponent =>
      if exponent.natAbs ≤ 308 then
        if exponent < 0 then
          some (x / powerOfTen exponent.natAbs)
        else
          let scaled := x * powerOfTen exponent.natAbs
          if scaled.isInf then none else some scaled
      else if x == 0.0 then
        some x
      else if exponent < 0 then
        scaleWithin steps (x / powerOfTen 308) (exponent + 308)
      else
        none

/-- The double of a significand of at most 64 bits and a power of ten. After three
steps of 308 places every significand has become zero. -/
def scaled? (significand : Nat) (exponent : Int) : Option Float :=
  scaleWithin 4 significand.toUInt64.toFloat exponent

/-- The greatest exponent that is taken at its value. -/
def exponentMax : Nat := 0x7FFFFFFF

/-- The double written with the given digits before and after the point and the given
exponent. Nothing is the answer when it is beyond the range of doubles. -/
def read? (whole fraction : List Char) (exponentNegative : Bool) (exponent : Nat) :
    Option Float :=
  let (significand, taken) := appendDigits whole 0 0
  let dropped := whole.length - taken
  let (significand, taken) := appendDigits fraction significand 0
  if exponent ≤ exponentMax then
    let start : Int := dropped - (taken : Int)
    scaled? significand (if exponentNegative then start - exponent else start + exponent)
  else if significand = 0 ∨ exponentNegative then
    some 0.0
  else
    none

end Decimal

end Rubric
