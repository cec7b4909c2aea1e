/-!
# Digits

Rows of digits stand for whole numbers in some base. The digits of a base are its values
below it, written `0` to `9` and then `a` to `f` in either case.
-/

namespace Rubric

namespace Digit

def value? (c : Char) : Option Nat :=
  if c.isDigit then some (c.toNat - '0'.toNat)
  else if 'a' ≤ c ∧ c ≤ 'f' then some (c.toNat - 'a'.toNat + 10)
  else if 'A' ≤ c ∧ c ≤ 'F' then some (c.toNat - 'A'.toNat + 10)
  else none

def inBase? (base : Nat) (c : Char) : Option Nat := do
  let d ← value? c
  if d < base then some d else none

/-- The number that a row of digits is in a base. An empty row is no number. -/
def row? (base : Nat) (digits : List Char) : Option Nat :=
  if digits.isEmpty then none
  else digits.foldlM (fun n c => (inBase? base c).map fun d => n * base + d) 0

end Digit

end Rubric
