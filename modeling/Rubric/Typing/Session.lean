import Rubric.Data.Arrangement
import Rubric.Typing.Error
import Rubric.Typing.Globals
import Rubric.Typing.Lowering
import Rubric.Typing.Prelude
import Rubric.Typing.Scope

/-!
# Checking sessions

A session is what changes while a program is checked: the next free variable number, the
equations accepted so far as a substitution, the variables that stand for literals of the
generic numeric kind, and the names in scope. A step of the checker may fail, and what it
did to the session before it failed stays.

The setting does not change: the declarations of the program and its aliases, lowered
once for the whole program. Literals and aliases are kept in sets whose order is not
specified. The order of the aliases decides which numbers the variables of their bodies
get, and the order of the literals which of them a refused equation is blamed on.
-/

namespace Rubric

/-- The declarations and the lowered aliases that a program is checked against, and the
order in which the literals of a clause are looked at. No variable number is taken twice in
a run, so an order that depends on the variables may depend on the whole past of a run. -/
structure Setting where
  globals : Globals := {}
  aliases : Aliases := {}
  literals : Arrangement TypeVar := .listed

/-- The orders in which a run goes through what has no order of its own. -/
structure Orders where
  aliases : Arrangement String := .listed
  literals : Arrangement TypeVar := .listed

namespace Setting

/-- Lower declared aliases one after the other, each with written variables of its own.
The second component is the next free variable number. -/
def lowerAliases (declared : List (String × TypeTerm)) (next : Nat) : Aliases × Nat :=
  declared.foldl
    (fun (aliases, next) (name, term) =>
      let (t, naming) := term.lower.run { next }
      (aliases.insert name t, naming.next))
    (.empty, next)

/-- The setting of a program's declarations, and the first variable number that its
aliases leave free. -/
def ofGlobals (globals : Globals) (orders : Orders := {}) : Setting × Nat :=
  let (aliases, next) := lowerAliases (globals.aliases.arranged orders.aliases) 0
  (⟨globals, aliases, orders.literals⟩, next)

end Setting

/-- What changes while a program is checked. -/
structure Session where
  next : Nat := 0
  subst : Substitution := {}
  numeric : List TypeVar := []
  scopes : Scopes := {}

namespace Session

instance : Inhabited Session := ⟨{}⟩

/-- Forget the equations and the numeric literals of the previous clause. Variable
numbers go on, so that variables never clash across clauses. -/
def reset (session : Session) : Session :=
  { session with subst := .empty, numeric := [] }

/-- Whether a type may still be that of a numeric literal: a variable or, after alias
expansion, one of the numeric kinds. -/
def mayBeNumeric (aliases : Aliases) (t : Ty) : Bool :=
  match aliases.expand t with
  | .var _ => true
  | .con name => name ∈ Ty.numericKinds
  | _ => false

/-- The type that a substitution gives to the first numeric literal for which it is not
numeric. -/
def nonNumeric? (aliases : Aliases) (numeric : List TypeVar) (subst : Substitution) :
    Option Ty :=
  (numeric.map fun v => subst.apply (.var v)).find? fun t => !mayBeNumeric aliases t

/-- The equations accepted so far together with one more. A mismatch names the two whole
types as resolved so far, and a solution that would give numeric literals another kind of
type is refused on behalf of the first of them. -/
def equate (aliases : Aliases) (literals : Arrangement TypeVar) (session : Session)
    (expected found : Ty) : Except TypeError Substitution :=
  let expected := session.subst.apply expected
  let found := session.subst.apply found
  match unify aliases expected found with
  | .ok solution =>
      let subst := session.subst.compose solution
      match nonNumeric? aliases (literals.arrange session.numeric) subst with
      | some t => .error (.nonNumericLiteral t)
      | none => .ok subst
  | .error (.mismatch _ _) => .error (.mismatch expected found none)
  | .error error => .error (.ofUnifyError error)

end Session

/-- A step of the checker: it may fail, and its effect on the session stays either way. -/
abbrev Check (α : Type) := ExceptT TypeError (StateM Session) α

namespace Check

def runOn {α : Type} (step : Check α) (session : Session) : Except TypeError α × Session :=
  (ExceptT.run step).run session

def inContext {α : Type} (context : String) (step : Check α) : Check α :=
  step.adapt (TypeError.withContext context)

def freshVar : Check TypeVar := do
  let session ← get
  set { session with next := session.next + 1 }
  pure ⟨session.next, none⟩

def fresh : Check Ty := do
  let v ← freshVar
  pure (.var v)

def freshFor {α : Type} : List α → Check (List Ty)
  | [] => pure []
  | _ :: rest => do
      let t ← fresh
      let ts ← freshFor rest
      pure (t :: ts)

/-- A new variable that stands for a literal of the generic numeric kind. -/
def freshNumeric : Check Ty := do
  let v ← freshVar
  modify fun session => { session with numeric := v :: session.numeric }
  pure (.var v)

def lowering {α : Type} (names : Table String TypeVar) (term : StateM Naming α) :
    Check (α × Table String TypeVar) := do
  let session ← get
  let (result, naming) := term.run { names, next := session.next }
  set { session with next := naming.next }
  pure (result, naming.names)

def resolve (t : Ty) : Check Ty := do
  let session ← get
  pure (session.subst.apply t)

/-- Require two types to be equal. A refused equation changes nothing. -/
def constrain (aliases : Aliases) (literals : Arrangement TypeVar) (expected found : Ty) :
    Check Unit := do
  let session ← get
  match session.equate aliases literals expected found with
  | .ok subst => set { session with subst }
  | .error error => throw error

def bindName (name : String) (t : Ty) : Check Unit :=
  modify fun session => { session with scopes := session.scopes.insert name t }

/-- Run a step in a scope of its own, which is closed again whether it fails or not. -/
def inNewScope {α : Type} (step : Check α) : Check α :=
  ExceptT.mk fun session =>
    let (result, after) := runOn step { session with scopes := session.scopes.push }
    (result, { after with scopes := session.scopes })

end Check

end Rubric
