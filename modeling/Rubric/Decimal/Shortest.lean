/-!
# Shortest decimals of binary fractions

A double stands for an interval of reals: those that are closer to it than to any other
double, with the ends of the interval included when its last bit is even. The shortest
decimal of a double is the one with the fewest digits inside that interval and, among
those, the nearest. Everything here is exact arithmetic on natural numbers.
-/

namespace Rubric

/-- The number `digits · 10 ^ exponent`. -/
structure Decimal where
  digits : Nat
  exponent : Int
deriving DecidableEq, Repr

namespace Decimal

/-- The power of a natural number with an exponent that counts as zero when negative. -/
def power (base : Nat) (exponent : Int) : Nat :=
  Nat.pow base exponent.toNat

def stripWithin : Nat → Decimal → Decimal
  | 0, d => d
  | zeros + 1, d =>
      if d.digits ≠ 0 ∧ d.digits % 10 = 0 then
        stripWithin zeros ⟨d.digits / 10, d.exponent + 1⟩
      else d

def strip (d : Decimal) : Decimal :=
  stripWithin (Nat.toDigits 10 d.digits).length d

end Decimal

/-- A positive binary fraction `significand · 2 ^ exponent`. The doubles below it are
half as far away as those above it when it is a power of two that starts a new range. -/
structure BinaryFraction where
  significand : Nat
  exponent : Int
  startsRange : Bool

namespace BinaryFraction

def signWeight : Nat := 0x8000000000000000

/-- The weight of the exponent among the 64 bits of a double, which is also that of the
leading digit of a significand. -/
def exponentWeight : Nat := 0x10000000000000

def ofFloat (x : Float) : BinaryFraction :=
  let bits : Nat := x.toBits.toNat % signWeight
  let field : Nat := bits / exponentWeight
  let fraction : Nat := bits % exponentWeight
  if field = 0 then
    ⟨fraction, -1074, false⟩
  else
    ⟨exponentWeight + fraction, (field : Int) - 1075, fraction = 0 && 1 < field⟩

/-- The interval of a binary fraction, as multiples of a common unit `1 / unit`. -/
structure Interval where
  low : Nat
  value : Nat
  high : Nat
  unit : Nat
  closed : Bool

/-- The reals that are closest to a binary fraction. -/
def interval (x : BinaryFraction) : Interval :=
  let scale := Decimal.power 2 (x.exponent - 2)
  { low := (4 * x.significand - if x.startsRange then 1 else 2) * scale
    value := 4 * x.significand * scale
    high := (4 * x.significand + 2) * scale
    unit := Decimal.power 2 (2 - x.exponent)
    closed := x.significand % 2 = 0 }

namespace Interval

def contains (i : Interval) (digits : Nat) (exponent : Int) : Bool :=
  let point := digits * Decimal.power 10 exponent * i.unit
  let scale := Decimal.power 10 (-exponent)
  if i.closed then
    i.low * scale ≤ point && point ≤ i.high * scale
  else
    i.low * scale < point && point < i.high * scale

/-- The number of digits before the decimal point, or minus the number of zeros after
it. -/
def magnitude (i : Interval) : Int :=
  let whole := i.value / i.unit
  if whole ≠ 0 then
    (Nat.toDigits 10 whole).length
  else
    let zeros := ((List.range 400).find? fun n => i.unit ≤ i.value * Nat.pow 10 n).getD 0
    1 - (zeros : Int)

/-- The nearest multiple of a power of ten that lies in the interval, if there is one.
Of two that are equally near, the even one. -/
def onGrid? (i : Interval) (exponent : Int) : Option Decimal :=
  let step := Decimal.power 10 exponent * i.unit
  let target := i.value * Decimal.power 10 (-exponent)
  let below := target / step
  let above := below + 1
  let distanceBelow := target - below * step
  let distanceAbove := above * step - target
  match i.contains below exponent, i.contains above exponent with
  | true, true =>
      if distanceBelow < distanceAbove ∨ (distanceBelow = distanceAbove ∧ below % 2 = 0) then
        some ⟨below, exponent⟩
      else
        some ⟨above, exponent⟩
  | true, false => some ⟨below, exponent⟩
  | false, true => some ⟨above, exponent⟩
  | false, false => none

end Interval

/-- The shortest decimal of a binary fraction. Seventeen digits always suffice for a
double. -/
def shortest (x : BinaryFraction) : Decimal :=
  let i := x.interval
  let magnitude := i.magnitude
  let found := (List.range 17).findSome? fun n => i.onGrid? (magnitude - (n + 1 : Nat))
  (found.getD ⟨0, 0⟩).strip

end BinaryFraction

end Rubric
