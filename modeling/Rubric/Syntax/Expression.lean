import Rubric.Syntax.Location
import Rubric.Syntax.Operator

/-!
# Expressions and patterns

Literals can hold lists of expressions, expressions can hold lambdas with patterns, and
patterns can hold literals. The five types are therefore one mutual family, and a
function on any of them is written together with its companions on lists.
-/

namespace Rubric

mutual

/-- A value-producing term of the graded program. -/
inductive Expression where
  | primitive (primitive : Primitive)
  | operation (operation : Operation)
  | tuple (elements : List Expression)
  | conditional (condition yes no : Expression)
  /-- A list built from its first element and the rest. -/
  | cons (head tail : Expression)
  /-- A data constructor with its fields filled in. -/
  | data (name : Symbol) (fields : List FieldExpression)
  | composition (left right : Expression)
  | lambda (parameters : List Pattern) (body : Expression)
  | application (function argument : Expression)
  /-- A binary operator that is not one of the built-in operations. -/
  | infixed (operator : Symbol) (left right : Expression)

/-- The value given to one field of a data constructor. -/
structure FieldExpression where
  name : Symbol
  value : Expression

/-- Leaves and list literals. -/
inductive Primitive where
  /-- A number together with the name of its numeric kind. -/
  | number (kind : String) (value : Float) (loc : Span)
  | boolean (value : Bool) (loc : Span)
  | char (value : String) (loc : Span)
  | string (value : String) (loc : Span)
  | null (loc : Span)
  | undefined (loc : Span)
  | symbol (symbol : Symbol)
  | list (elements : List Expression) (loc : Span)

/-- A built-in binary operator with its operands. -/
structure Operation where
  operator : Operator
  left : Expression
  right : Expression
  loc : Span

/-- The left-hand side of a match. -/
inductive Pattern where
  | wildcard
  | literal (literal : Primitive)
  | var (symbol : Symbol)
  | constructor (name : String) (patterns : List Pattern)
  | list (elements : List Pattern)
  | cons (head tail : Pattern)
  /-- A pattern that is also matched as a whole by an alias. -/
  | as (whole : Pattern) (pattern : Pattern)
  | tuple (elements : List Pattern)

end

deriving instance BEq for Expression, FieldExpression, Primitive, Operation, Pattern
deriving instance Repr for Expression, FieldExpression, Primitive, Operation, Pattern

instance : Inhabited Primitive := ⟨.null {}⟩
instance : Inhabited Expression := ⟨.primitive default⟩
instance : Inhabited Pattern := ⟨.wildcard⟩

namespace Primitive

def loc : Primitive → Span
  | number _ _ loc | boolean _ loc | char _ loc | string _ loc | null loc | undefined loc
  | list _ loc => loc
  | symbol name => name.loc

end Primitive

namespace Expression

def ofName (name : String) : Expression :=
  primitive (.symbol ⟨name, none, {}⟩)

/-- A built-in operation whose place was not recorded. -/
def binary (operator : Operator) (left right : Expression) : Expression :=
  operation ⟨operator, left, right, {}⟩

/-- A function applied to its arguments one after the other. -/
def call (function : Expression) (arguments : List Expression) : Expression :=
  arguments.foldl application function

end Expression

namespace Pattern

mutual

/-- The names a pattern binds, from left to right. A name that occurs twice is listed
twice; literals bind nothing, whatever lambdas they contain. -/
def boundNames : Pattern → List String
  | wildcard => []
  | literal _ => []
  | var name => [name.value]
  | constructor _ patterns => boundNamesAll patterns
  | list elements => boundNamesAll elements
  | cons head tail => head.boundNames ++ tail.boundNames
  | as whole pattern => whole.boundNames ++ pattern.boundNames
  | tuple elements => boundNamesAll elements

def boundNamesAll : List Pattern → List String
  | [] => []
  | pattern :: rest => pattern.boundNames ++ boundNamesAll rest

end

end Pattern

end Rubric
