import Rubric.Typing.Alias
import Rubric.Typing.Substitution

/-!
# Unification

Two types are made equal by a substitution, where a named type and its alias expansion
count as equal. Components are unified from left to right, each under the substitution
found so far.

Aliases may refer to themselves through a type constructor, so expansion can go on
forever. Every pair of types whose expansion is under way is remembered, and a pair
that comes around again is a mismatch. The depth of the search is bounded by a number
computed from the two types and the alias table.
-/

namespace Rubric

/-- Why two types cannot be made equal. -/
inductive UnifyError where
  /-- The heads of two types disagree. -/
  | mismatch (expected found : Ty)
  /-- A variable would have to contain itself. -/
  | occurs (v : TypeVar) (t : Ty)
deriving DecidableEq, Repr

namespace UnifyError

def message : UnifyError → String
  | mismatch expected found =>
      "type mismatch: expected " ++ expected.render ++ ", found " ++ found.render
  | occurs v t =>
      "occurs check: cannot construct infinite type " ++ v.label ++ " = " ++ t.render

end UnifyError

namespace Unification

/-- The outcome of a bounded search: nothing when the bound was too small. -/
abbrev Search (α : Type) := ExceptT UnifyError Option α

def exhausted {α : Type} : Search α := ExceptT.mk none

/-- Bind a variable to a type in which it does not occur. -/
def bind (v : TypeVar) (t : Ty) : Search Substitution :=
  if t.occurs v then throw (.occurs v t) else pure (.singleton v t)

def unifyEach (unify : Ty → Ty → Search Substitution) :
    List (Ty × Ty) → Substitution → Search Substitution
  | [], found => pure found
  | (a, b) :: rest, found => do
      let more ← unify (found.apply a) (found.apply b)
      unifyEach unify rest (found.compose more)

def unifyParts (unify : Ty → Ty → Search Substitution) : Ty → Ty → Search Substitution
  | .func a b, .func c d => do
      let first ← unify a c
      let second ← unify (first.apply b) (first.apply d)
      pure (first.compose second)
  | .list a, .list b => unify a b
  | .tuple as, .tuple bs =>
      if as.length = bs.length then
        unifyEach unify (as.zip bs) .empty
      else
        throw (.mismatch (.tuple as) (.tuple bs))
  | .app a as, .app b bs =>
      if as.length = bs.length then
        unifyEach unify ((a, b) :: as.zip bs) .empty
      else
        throw (.mismatch (.app a as) (.app b bs))
  | a, b => throw (.mismatch a b)

/-- Unify two types of which neither is a variable and which are not one name. -/
def unifyHeads (aliases : Aliases) (expanding : List (Ty × Ty))
    (unify : List (Ty × Ty) → Ty → Ty → Search Substitution) (a b : Ty) :
    Search Substitution :=
  let a' := aliases.expand a
  let b' := aliases.expand b
  if a' = a ∧ b' = b then
    unifyParts (unify expanding) a b
  else if (a, b) ∈ expanding then
    throw (.mismatch a b)
  else
    unify ((a, b) :: expanding) a' b'

/-- Unify two types by a search of bounded depth. The list holds the pairs whose
expansion is under way. -/
def unifyWithin (aliases : Aliases) : Nat → List (Ty × Ty) → Ty → Ty → Search Substitution
  | 0, _, _, _ => exhausted
  | depth + 1, expanding, a, b =>
      match a, b with
      | .var v, .var w => if v = w then pure .empty else bind v (.var w)
      | .var v, t => bind v t
      | t, .var v => bind v t
      | .con m, .con n =>
          if m = n then pure .empty
          else unifyHeads aliases expanding (unifyWithin aliases depth) (.con m) (.con n)
      | a, b => unifyHeads aliases expanding (unifyWithin aliases depth) a b

/-- A depth that no search reaches: there are at most `reach` different terms at any
time, an expansion under way is a pair of them, and each step either uses up such a
pair, goes down inside a term, or solves a variable. -/
def depthBound (aliases : Aliases) (a b : Ty) : Nat :=
  let nodes := a.size + b.size + aliases.size
  let reach := nodes * (aliases.table.size + 1) + 1
  (nodes + 1) * (reach + 1) * (reach * reach + 1)

end Unification

def unify (aliases : Aliases) (a b : Ty) : Except UnifyError Substitution :=
  match (Unification.unifyWithin aliases (Unification.depthBound aliases a b) [] a b).run with
  | some outcome => outcome
  | none => .error (.mismatch a b)

end Rubric
