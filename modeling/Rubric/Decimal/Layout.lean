import Rubric.Decimal.Shortest

/-!
# Writing numbers

A layout says where positional writing ends. Inside its range a number has at least one
digit after the point; outside it has an exponent with a sign and no padding.
-/

namespace Rubric

namespace Decimal

/-- The range of magnitudes that are written positionally. The magnitude of a number is
how many digits it has before the point. -/
structure Layout where
  least : Int
  greatest : Int

namespace Layout

def zeros (count : Nat) : String :=
  String.ofList (List.replicate count '0')

def positional (digits : List Char) (magnitude : Int) : String :=
  if magnitude ≤ 0 then
    "0." ++ zeros (-magnitude).toNat ++ String.ofList digits
  else
    let whole := digits.take magnitude.toNat
    let fraction := digits.drop magnitude.toNat
    String.ofList whole ++ zeros (magnitude.toNat - digits.length) ++ "." ++
      (if fraction.isEmpty then "0" else String.ofList fraction)

def scientific (digits : List Char) (magnitude : Int) : String :=
  let exponent := magnitude - 1
  let fraction := digits.drop 1
  String.ofList (digits.take 1) ++
    (if fraction.isEmpty then "" else "." ++ String.ofList fraction) ++
    "e" ++ (if exponent < 0 then "-" else "+") ++ toString exponent.natAbs

def write (layout : Layout) (d : Decimal) : String :=
  let digits := Nat.toDigits 10 d.digits
  let magnitude := digits.length + d.exponent
  if layout.least ≤ magnitude ∧ magnitude ≤ layout.greatest then
    positional digits magnitude
  else
    scientific digits magnitude

/-- The text of a finite double, by its shortest decimal. Zero keeps its sign. -/
def writeFloat (layout : Layout) (x : Float) : String :=
  let sign := if x.toBits.toNat < BinaryFraction.signWeight then "" else "-"
  if x == 0.0 then
    sign ++ "0.0"
  else
    sign ++ layout.write (BinaryFraction.ofFloat x).shortest

end Layout

end Decimal

end Rubric
