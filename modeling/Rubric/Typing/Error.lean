import Rubric.Syntax.Location
import Rubric.Typing.Unification

/-!
# Type errors

What can be wrong with a clause, as causes with the data they speak about. The wording
is in `TypeError.message`; a `Diagnostic` adds the function, the clause and the place.
-/

namespace Rubric

/-- What is wrong with a clause. -/
inductive TypeError where
  /-- Two types that have to agree do not. The context says what was compared. -/
  | mismatch (expected found : Ty) (context : Option String)
  /-- A type would have to contain itself. -/
  | occurs (v : TypeVar) (t : Ty)
  /-- An operator was applied outside its domain. -/
  | unsupportedOperand (operator : String) (found : Ty)
  /-- A literal of the generic numeric kind was given a type that is not numeric. -/
  | nonNumericLiteral (found : Ty)
  | unknownConstructor (name : String)
  | constructorArity (name : String) (expected found : Nat)
  | unknownField (constructor field : String)
  /-- A clause has more parameters than its signature has inputs. -/
  | tooManyParameters (expected found : Nat)
deriving DecidableEq, Repr

namespace TypeError

/-- Say what was being compared. Only a mismatch has a context. -/
def withContext (context : String) : TypeError → TypeError
  | mismatch expected found _ => mismatch expected found (some context)
  | error => error

def ofUnifyError : UnifyError → TypeError
  | .mismatch expected found => mismatch expected found none
  | .occurs v t => occurs v t

def quoted (name : String) : String :=
  "`" ++ name ++ "`"

def message : TypeError → String
  | mismatch expected found context =>
      "type mismatch" ++ (context.map (" in " ++ ·)).getD "" ++
        ": expected " ++ expected.render ++ ", found " ++ found.render
  | occurs v t => "cannot construct infinite type: " ++ v.label ++ " = " ++ t.render
  | unsupportedOperand operator found =>
      "operator " ++ quoted operator ++ " cannot be applied to values of type " ++ found.render
  | nonNumericLiteral found => "numeric literal used as a value of type " ++ found.render
  | unknownConstructor name => "unknown data constructor " ++ quoted name
  | constructorArity name expected found =>
      "constructor " ++ quoted name ++ " has " ++ toString expected ++
        " field(s) but was given " ++ toString found
  | unknownField constructor field =>
      "constructor " ++ quoted constructor ++ " has no field " ++ quoted field
  | tooManyParameters expected found =>
      "clause has " ++ toString found ++ " parameter(s) but its signature declares " ++
        toString expected

end TypeError

/-- A type error in a clause of a function. Clauses are counted from one. -/
structure Diagnostic where
  function : String
  clause : Nat
  loc : Span
  error : TypeError
deriving DecidableEq, Repr

namespace Diagnostic

def place (diagnostic : Diagnostic) : String :=
  if diagnostic.loc.isKnown then
    ", line " ++ toString diagnostic.loc.start.line ++ ":" ++
      toString diagnostic.loc.start.column
  else ""

def message (diagnostic : Diagnostic) : String :=
  "Type error in " ++ TypeError.quoted diagnostic.function ++
    " (clause " ++ toString diagnostic.clause ++ diagnostic.place ++ "): " ++
    diagnostic.error.message

end Diagnostic

end Rubric
