import Rubric.Typing.Inference

/-!
# Checking programs against their signatures

Every clause of a function with a signature is checked on its own: the signature is
copied with new variables, the parameters are matched against the inputs, and the result
is compared with what is left of the signature. Errors never end the run. A clause
reports its first error, and a guarded clause one for each failing guard condition and
guard result.
-/

namespace Rubric

namespace Setting

variable (setting : Setting)

def checkExpression (context : String) (expected : Ty) (e : Expression) : Check Unit := do
  let found ← setting.inferExpression e
  setting.constrainIn context expected found

def failure (step : Check Unit) : StateM Session (List TypeError) := do
  match ← ExceptT.run step with
  | .ok _ => pure []
  | .error error => pure [error]

/-- The errors of the guards of a clause. A failing guard does not keep the next ones
from being checked. -/
def checkGuards (expected : Ty) : List Guard → StateM Session (List TypeError)
  | [] => pure []
  | guard :: rest => do
      let condition ← failure (setting.checkExpression "guard condition" .bool guard.condition)
      let result ← failure (setting.checkExpression "guard result" expected guard.result)
      let others ← checkGuards expected rest
      pure (condition ++ result ++ others)

def checkResult (expected : Ty) : ClauseBody → StateM Session (List TypeError)
  | .unguarded e => failure (setting.checkExpression "return value" expected e)
  | .guarded guards => setting.checkGuards expected guards

/-- The errors of a clause, of which only the result is typed. Inputs without a parameter
belong to the function that the clause returns. -/
def checkClause (signature : Signature) (clause : Clause) : StateM Session (List TypeError) := do
  modify fun session => { session with scopes := .empty }
  let session ← get
  let ((inputs, output), naming) := signature.lower.run { next := session.next }
  set { session with next := naming.next }
  let given := clause.parameters.length
  if inputs.length < given then
    pure [.tooManyParameters inputs.length given]
  else do
    match ← ExceptT.run (setting.bindAll clause.parameters inputs) with
    | .error error => pure [error]
    | .ok _ => setting.checkResult (.curried (inputs.drop given) output) clause.result

/-- The errors of the clauses of a function, numbered from a given number on. Each clause
starts without equations. -/
def checkClauses (group : FunctionGroup) (signature : Signature) :
    Nat → List Clause → StateM Session (List Diagnostic)
  | _, [] => pure []
  | number, clause :: rest => do
      modify Session.reset
      let errors ← setting.checkClause signature clause
      let others ← checkClauses group signature (number + 1) rest
      pure (errors.map (Diagnostic.mk group.name.value number group.name.loc) ++ others)

/-- The errors of a function. One without a signature has none. -/
def checkFunction (group : FunctionGroup) : StateM Session (List Diagnostic) :=
  match setting.globals.signatures.get? group.name.value with
  | none => pure []
  | some signature => setting.checkClauses group signature 1 group.clauses

def checkFunctions : List FunctionGroup → StateM Session (List Diagnostic)
  | [] => pure []
  | group :: rest => do
      let errors ← setting.checkFunction group
      let others ← checkFunctions rest
      pure (errors ++ others)

end Setting

namespace Node

def asFunction? : Node → Option FunctionGroup
  | function group => some group
  | _ => none

end Node

namespace Program

/-- The errors of the functions of a program that are given, in the given order and
within one session. -/
def diagnosticsOf (program : Program) (groups : List FunctionGroup) (orders : Orders := {}) :
    List Diagnostic :=
  let (setting, next) := Setting.ofGlobals (.collect program) orders
  ((setting.checkFunctions groups).run { next }).1

/-- The type errors of a program, in the order in which a walk meets its functions. -/
def diagnostics (program : Program) (orders : Orders := {}) : List Diagnostic :=
  program.diagnosticsOf ((Node.program program).subtree.filterMap Node.asFunction?) orders

def check (program : Program) (orders : Orders := {}) : List String :=
  (program.diagnostics orders).map Diagnostic.message

end Program

end Rubric
