import Rubric.Inspection.Rule
import Rubric.Tree.Visit

/-!
# Built-in inspections

Questions that every grader can answer. All of them are about the binding given as
`name`; without a text there the answer is no. They look at the nodes below the first
function of that name, and only the question whether a binding exists looks at the whole
program.
-/

namespace Rubric

/-- The built-in inspections. -/
inductive Builtin where
  /-- A function, alias, record or signature of that name exists. -/
  | hasBinding
  /-- Some clause of the function is marked as guarded. -/
  | usesGuards
  /-- The function contains a wildcard pattern. -/
  | usesAnonymousVariable
  /-- The function has more than one clause. -/
  | hasPatternMatching
  /-- Some name, text or character in the function is the one given as `usage`. -/
  | uses
  | hasLambdaExpression
  | hasArithmetic
  | hasComposition
deriving DecidableEq, Repr

namespace Builtin

def all : List Builtin :=
  [hasBinding, usesGuards, usesAnonymousVariable, hasPatternMatching, uses,
    hasLambdaExpression, hasArithmetic, hasComposition]

/-- The name that rules use for an inspection. The spelling of the fourth is the one that
existing rules have. -/
def text : Builtin → String
  | hasBinding => "HasBinding"
  | usesGuards => "UsesGuards"
  | usesAnonymousVariable => "UsesAnonymousVariable"
  | hasPatternMatching => "HasPatternMathing"
  | uses => "Uses"
  | hasLambdaExpression => "HasLambdaExpression"
  | hasArithmetic => "HasArithmetic"
  | hasComposition => "HasComposition"

def ofText? (name : String) : Option Builtin :=
  all.find? fun builtin => builtin.text == name

def declares (name : String) : Node → Bool
  | .function g => g.name.value == name
  | .typeAlias a => a.name.value == name
  | .record r => r.name.value == name
  | .signature s => s.name.value == name
  | _ => false

def isBound (program : Program) (name : String) : Bool :=
  (Node.program program).subtree.any (declares name)

/-- Whether some node below the function of a given name has a property. -/
def below (program : Program) (name : String) (property : Node → Bool) : Bool :=
  (program.function? name).any fun group => (Node.function group).subtree.any property

def containsKind (program : Program) (name : String) (kind : Kind) : Bool :=
  below program name fun node => node.kind == kind

def holds (program : Program) (args : Arguments) (name : String) : Builtin → Bool
  | hasBinding => isBound program name
  | usesGuards => (program.function? name).any fun group => group.clauses.any Clause.isGuarded
  | usesAnonymousVariable => containsKind program name .wildcardPattern
  | hasPatternMatching => (program.function? name).any fun group => 1 < group.clauses.length
  | uses =>
      match args.usage? with
      | none => false
      | some usage => below program name fun node => node.value? == some usage
  | hasLambdaExpression => containsKind program name .lambdaExpression
  | hasArithmetic => containsKind program name .arithmetic
  | hasComposition => containsKind program name .compositionExpression

def evaluate (builtin : Builtin) (program : Program) (args : Arguments) : Bool :=
  match args.name? with
  | none => false
  | some name => builtin.holds program args name

end Builtin

end Rubric
