import Rubric.Syntax.Expression
import Rubric.Syntax.TypeTerm

/-!
# Programs

A program is a list of declarations: type aliases, signatures, functions given by
clauses, and records given by constructors. A clause keeps its right-hand side twice,
once as the body that inspections look at and once as the result that is typed.
-/

namespace Rubric

/-- One alternative of a guarded right-hand side. -/
structure Guard where
  condition : Expression
  body : Expression
  result : Expression
deriving BEq, Repr, Inhabited

/-- A right-hand side: a single expression or a list of guarded ones. -/
inductive ClauseBody where
  | unguarded (expression : Expression)
  | guarded (guards : List Guard)
deriving BEq, Repr, Inhabited

/-- One pattern-matched alternative of a function. -/
structure Clause where
  parameters : List Pattern
  body : ClauseBody
  result : ClauseBody
  attributes : List String := []
deriving BEq, Repr, Inhabited

/-- Every clause declared under one function name, in matching order. -/
structure FunctionGroup where
  name : Symbol
  clauses : List Clause
deriving BEq, Repr, Inhabited

/-- The declared type of a function. -/
structure Signature where
  name : Symbol
  constraints : List Constraint := []
  inputs : List TypeTerm
  output : TypeTerm
deriving BEq, Repr, Inhabited

/-- A second name for a type. -/
structure TypeAlias where
  name : Symbol
  value : TypeTerm
deriving BEq, Repr, Inhabited

/-- A field of a data constructor, named or positional. -/
structure Field where
  name : Option Symbol := none
  value : TypeTerm
deriving BEq, Repr, Inhabited

/-- A data constructor and its fields. -/
structure Constructor where
  name : String
  fields : List Field
deriving BEq, Repr, Inhabited

/-- A data type given by its constructors. -/
structure Record where
  name : Symbol
  constructors : List Constructor
deriving BEq, Repr, Inhabited

/-- A top-level item of a program. -/
inductive Declaration where
  | typeAlias (declared : TypeAlias)
  | signature (signature : Signature)
  | function (group : FunctionGroup)
  | record (record : Record)
deriving BEq, Repr, Inhabited

/-- A whole program. -/
structure Program where
  declarations : List Declaration := []
deriving BEq, Repr, Inhabited

namespace Guard

def simple (condition body : Expression) : Guard :=
  ⟨condition, body, body⟩

end Guard

namespace Clause

def guardedAttribute : String := "GuardedBody"

def unguardedAttribute : String := "UnguardedBody"

def ofExpression (parameters : List Pattern) (body : Expression) : Clause :=
  ⟨parameters, .unguarded body, .unguarded body, [unguardedAttribute]⟩

def ofGuards (parameters : List Pattern) (guards : List Guard) : Clause :=
  ⟨parameters, .guarded guards, .guarded guards, [guardedAttribute]⟩

/-- Whether the front end marked the clause as guarded. The attribute decides, not the
shape of the right-hand side. -/
def isGuarded (clause : Clause) : Bool :=
  clause.attributes.any (· == guardedAttribute)

end Clause

namespace Declaration

def asFunction? : Declaration → Option FunctionGroup
  | function group => some group
  | _ => none

end Declaration

namespace Program

def functions (program : Program) : List FunctionGroup :=
  program.declarations.filterMap Declaration.asFunction?

def function? (program : Program) (name : String) : Option FunctionGroup :=
  program.functions.find? fun group => group.name.value == name

end Program

end Rubric
