import Rubric.Syntax.Program

/-!
# Programs as trees

Every construct of a program is a node of one tree. `Node` says which constructs are
nodes, `Node.children` lists the nodes directly below one in the order of its fields,
and `Node.kind` names a node as inspections and reports do. An expression is a node of
its own above the node for its form, so that "every expression" and "every lambda" can
both be asked for.
-/

namespace Rubric

/-- A construct of a program. -/
inductive Node where
  | program (program : Program)
  | function (group : FunctionGroup)
  | clause (clause : Clause)
  | guard (guard : Guard)
  | signature (signature : Signature)
  | typeAlias (declared : TypeAlias)
  | record (record : Record)
  | constructor (constructor : Constructor)
  | field (field : Field)
  | constraint (constraint : Constraint)
  | expression (expression : Expression)
  | primitive (primitive : Primitive)
  | operation (operation : Operation)
  | tuple (elements : List Expression)
  | conditional (condition yes no : Expression)
  | cons (head tail : Expression)
  | data (name : Symbol) (fields : List FieldExpression)
  | fieldExpression (field : FieldExpression)
  | composition (left right : Expression)
  | lambda (parameters : List Pattern) (body : Expression)
  | application (function argument : Expression)
  | infixed (operator : Symbol) (left right : Expression)
  | pattern (pattern : Pattern)
  | typeTerm (term : TypeTerm)
  | symbol (symbol : Symbol)

/-- The name of a node, one for each form that a construct can take. -/
inductive Kind where
  | program | function | clause | guard | typeSignature | typeAlias | record | constructor
  | field | constraint | expression
  | number | boolean | char | string | null | undefined | symbol | list
  | arithmetic | comparison | logical | bitwise | concat
  | tupleExpression | ifThenElse | consExpression | dataExpression | fieldExpression
  | compositionExpression | lambdaExpression | application | infixApplication
  | wildcardPattern | literalPattern | variablePattern | constructorPattern | listPattern
  | consPattern | asPattern | tuplePattern
  | typeVar | typeConstructor | constrainedType | functionType | typeApplication | listType
  | tupleType | dataType | ifThenElseType
deriving DecidableEq, Repr

namespace Kind

def text : Kind → String
  | program => "Program"
  | function => "Function"
  | clause => "Clause"
  | guard => "Guard"
  | typeSignature => "TypeSignature"
  | typeAlias => "TypeAlias"
  | record => "Record"
  | constructor => "Constructor"
  | field => "Field"
  | constraint => "Constraint"
  | expression => "Expression"
  | number => "Number"
  | boolean => "Boolean"
  | char => "Char"
  | string => "String"
  | null => "Null"
  | undefined => "Undefined"
  | symbol => "Symbol"
  | list => "List"
  | arithmetic => "Arithmetic"
  | comparison => "Comparison"
  | logical => "Logical"
  | bitwise => "Bitwise"
  | concat => "Concat"
  | tupleExpression => "TupleExpression"
  | ifThenElse => "IfThenElse"
  | consExpression => "ConsExpression"
  | dataExpression => "DataExpression"
  | fieldExpression => "FieldExpression"
  | compositionExpression => "CompositionExpression"
  | lambdaExpression => "LambdaExpression"
  | application => "Application"
  | infixApplication => "InfixApplication"
  | wildcardPattern => "WildcardPattern"
  | literalPattern => "LiteralPattern"
  | variablePattern => "VariablePattern"
  | constructorPattern => "ConstructorPattern"
  | listPattern => "ListPattern"
  | consPattern => "ConsPattern"
  | asPattern => "AsPattern"
  | tuplePattern => "TuplePattern"
  | typeVar => "TypeVar"
  | typeConstructor => "TypeConstructor"
  | constrainedType => "ConstrainedType"
  | functionType => "FunctionType"
  | typeApplication => "TypeApplication"
  | listType => "ListType"
  | tupleType => "TupleType"
  | dataType => "DataType"
  | ifThenElseType => "IfThenElseType"

end Kind

namespace Primitive

def kind : Primitive → Kind
  | number .. => .number
  | boolean .. => .boolean
  | char .. => .char
  | string .. => .string
  | null .. => .null
  | undefined .. => .undefined
  | symbol .. => .symbol
  | list .. => .list

end Primitive

namespace Operator

def kind : Operator → Kind
  | arithmetic _ => .arithmetic
  | comparison _ => .comparison
  | logical _ => .logical
  | bitwise _ => .bitwise
  | concat => .concat

end Operator

namespace Pattern

def kind : Pattern → Kind
  | wildcard => .wildcardPattern
  | literal _ => .literalPattern
  | var _ => .variablePattern
  | constructor .. => .constructorPattern
  | list _ => .listPattern
  | cons .. => .consPattern
  | as .. => .asPattern
  | tuple _ => .tuplePattern

end Pattern

namespace TypeTerm

/-- The kind of a written type. A class constraint in the place of a type is of the same
kind as one in a context. -/
def kind : TypeTerm → Kind
  | var _ => .typeVar
  | con _ => .typeConstructor
  | constraint _ => .constraint
  | qualified .. => .constrainedType
  | arrow .. => .functionType
  | apply .. => .typeApplication
  | list _ => .listType
  | tuple _ => .tupleType
  | data .. => .dataType
  | conditional .. => .ifThenElseType

end TypeTerm

namespace Node

def ofDeclaration : Declaration → Node
  | .typeAlias a => typeAlias a
  | .signature s => signature s
  | .function g => function g
  | .record r => record r

def ofForm : Expression → Node
  | .primitive p => primitive p
  | .operation o => operation o
  | .tuple elements => tuple elements
  | .conditional condition yes no => conditional condition yes no
  | .cons head tail => cons head tail
  | .data name fields => data name fields
  | .composition left right => composition left right
  | .lambda parameters body => lambda parameters body
  | .application f argument => application f argument
  | .infixed operator left right => infixed operator left right

def ofClauseBody : ClauseBody → List Node
  | .unguarded e => [expression e]
  | .guarded guards => guards.map guard

def kind : Node → Kind
  | program _ => .program
  | function _ => .function
  | clause _ => .clause
  | guard _ => .guard
  | signature _ => .typeSignature
  | typeAlias _ => .typeAlias
  | record _ => .record
  | constructor _ => .constructor
  | field _ => .field
  | constraint _ => .constraint
  | expression _ => .expression
  | primitive p => p.kind
  | operation o => o.operator.kind
  | tuple _ => .tupleExpression
  | conditional .. => .ifThenElse
  | cons .. => .consExpression
  | data .. => .dataExpression
  | fieldExpression _ => .fieldExpression
  | composition .. => .compositionExpression
  | lambda .. => .lambdaExpression
  | application .. => .application
  | infixed .. => .infixApplication
  | pattern p => p.kind
  | typeTerm t => t.kind
  | symbol _ => .symbol

/-- The text carried by a name, a text literal or a character literal. -/
def value? : Node → Option String
  | symbol s => some s.value
  | primitive (.symbol s) => some s.value
  | primitive (.string value _) => some value
  | primitive (.char value _) => some value
  | _ => none

def ofPattern : Pattern → List Node
  | .wildcard => []
  | .literal p => [primitive p]
  | .var s => [symbol s]
  | .constructor _ patterns => patterns.map pattern
  | .list elements => elements.map pattern
  | .cons head tail => [pattern head, pattern tail]
  | .as whole p => [pattern whole, pattern p]
  | .tuple elements => elements.map pattern

/-- The nodes directly below a written type. A data type shows the fields of all its
constructors in one row. -/
def ofTypeTerm : TypeTerm → List Node
  | .var _ => []
  | .con _ => []
  | .constraint c => c.params.map typeTerm
  | .qualified context body => context.map constraint ++ [typeTerm body]
  | .arrow inputs output => inputs.map typeTerm ++ [typeTerm output]
  | .apply base args => typeTerm base :: args.map typeTerm
  | .list element => [typeTerm element]
  | .tuple elements => elements.map typeTerm
  | .data _ cases => (cases.flatMap DataCase.fields).map typeTerm
  | .conditional condition yes no => [typeTerm condition, typeTerm yes, typeTerm no]

/-- The nodes directly below a node, in the order of its fields. -/
def children : Node → List Node
  | program p => p.declarations.map ofDeclaration
  | function g => symbol g.name :: g.clauses.map clause
  | clause c => c.parameters.map pattern ++ ofClauseBody c.body ++ ofClauseBody c.result
  | guard g => [expression g.condition, expression g.body, expression g.result]
  | signature s =>
      symbol s.name :: (s.constraints.map constraint ++ s.inputs.map typeTerm ++
        [typeTerm s.output])
  | typeAlias a => [symbol a.name, typeTerm a.value]
  | record r => symbol r.name :: r.constructors.map constructor
  | constructor c => c.fields.map field
  | field f => f.name.toList.map symbol ++ [typeTerm f.value]
  | constraint c => c.params.map typeTerm
  | expression e => [ofForm e]
  | primitive (.list elements _) => elements.map expression
  | primitive _ => []
  | operation o => [expression o.left, expression o.right]
  | tuple elements => elements.map expression
  | conditional condition yes no => [expression condition, expression yes, expression no]
  | cons head tail => [expression head, expression tail]
  | data name fields => symbol name :: fields.map fieldExpression
  | fieldExpression f => [symbol f.name, expression f.value]
  | composition left right => [expression left, expression right]
  | lambda parameters body => parameters.map pattern ++ [expression body]
  | application f argument => [expression f, expression argument]
  | infixed operator left right => [symbol operator, expression left, expression right]
  | pattern p => ofPattern p
  | typeTerm t => ofTypeTerm t
  | symbol _ => []

/-! ## Children are smaller -/

noncomputable def weight : Node → Nat
  | program p => 2 * sizeOf p
  | function g => 2 * sizeOf g
  | clause c => 2 * sizeOf c
  | guard g => 2 * sizeOf g
  | signature s => 2 * sizeOf s
  | typeAlias a => 2 * sizeOf a
  | record r => 2 * sizeOf r
  | constructor c => 2 * sizeOf c
  | field f => 2 * sizeOf f
  | constraint c => 2 * sizeOf c
  | expression e => 2 * sizeOf e + 1
  | primitive p => 2 * sizeOf p
  | operation o => 2 * sizeOf o
  | tuple elements => 2 * sizeOf (Expression.tuple elements)
  | conditional condition yes no => 2 * sizeOf (Expression.conditional condition yes no)
  | cons head tail => 2 * sizeOf (Expression.cons head tail)
  | data name fields => 2 * sizeOf (Expression.data name fields)
  | fieldExpression f => 2 * sizeOf f
  | composition left right => 2 * sizeOf (Expression.composition left right)
  | lambda parameters body => 2 * sizeOf (Expression.lambda parameters body)
  | application f argument => 2 * sizeOf (Expression.application f argument)
  | infixed operator left right => 2 * sizeOf (Expression.infixed operator left right)
  | pattern p => 2 * sizeOf p
  | typeTerm t => 2 * sizeOf t
  | symbol _ => 0

theorem weight_ofForm_lt (e : Expression) : (ofForm e).weight < (expression e).weight := by
  cases e with
  | primitive p =>
      simp only [ofForm, weight, Expression.primitive.sizeOf_spec]; omega
  | operation o =>
      simp only [ofForm, weight, Expression.operation.sizeOf_spec]; omega
  | _ => exact Nat.lt_succ_self _

theorem weight_lt_of_mem_ofPattern {p : Pattern} {n : Node} (h : n ∈ ofPattern p) :
    n.weight < 2 * sizeOf p := by
  cases p with
  | wildcard => exact absurd h List.not_mem_nil
  | literal q =>
      simp only [ofPattern, List.mem_singleton] at h
      subst h
      simp only [weight, Pattern.literal.sizeOf_spec]; omega
  | var s =>
      simp only [ofPattern, List.mem_singleton] at h
      subst h
      simp only [weight, Pattern.var.sizeOf_spec]; omega
  | constructor name ps | list ps | tuple ps =>
      simp only [ofPattern, List.mem_map] at h
      obtain ⟨q, hq, rfl⟩ := h
      have := List.sizeOf_lt_of_mem hq
      simp only [weight, Pattern.constructor.sizeOf_spec, Pattern.list.sizeOf_spec,
        Pattern.tuple.sizeOf_spec]
      omega
  | cons a b | as a b =>
      simp only [ofPattern, List.mem_cons, List.not_mem_nil, or_false] at h
      rcases h with rfl | rfl <;>
        simp only [weight, Pattern.cons.sizeOf_spec, Pattern.as.sizeOf_spec] <;> omega

theorem weight_lt_of_mem_params {ts : List TypeTerm} {n : Node}
    (h : n ∈ ts.map typeTerm) : n.weight < 2 * sizeOf ts := by
  obtain ⟨t, ht, rfl⟩ := List.mem_map.1 h
  have := List.sizeOf_lt_of_mem ht
  change 2 * sizeOf t < _
  omega

theorem weight_lt_of_mem_constraints {cs : List Constraint} {n : Node}
    (h : n ∈ cs.map constraint) : n.weight < 2 * sizeOf cs := by
  obtain ⟨c, hc, rfl⟩ := List.mem_map.1 h
  have := List.sizeOf_lt_of_mem hc
  change 2 * sizeOf c < _
  omega

theorem weight_lt_of_mem_expressions {es : List Expression} {n : Node}
    (h : n ∈ es.map expression) : n.weight < 2 * sizeOf es := by
  obtain ⟨e, he, rfl⟩ := List.mem_map.1 h
  have := List.sizeOf_lt_of_mem he
  change 2 * sizeOf e + 1 < _
  omega

theorem weight_lt_of_mem_patterns {ps : List Pattern} {n : Node}
    (h : n ∈ ps.map pattern) : n.weight < 2 * sizeOf ps := by
  obtain ⟨p, hp, rfl⟩ := List.mem_map.1 h
  have := List.sizeOf_lt_of_mem hp
  change 2 * sizeOf p < _
  omega

theorem weight_lt_of_mem_ofTypeTerm {t : TypeTerm} {n : Node} (h : n ∈ ofTypeTerm t) :
    n.weight < 2 * sizeOf t := by
  cases t with
  | var _ => exact absurd h List.not_mem_nil
  | con _ => exact absurd h List.not_mem_nil
  | constraint c =>
      have := weight_lt_of_mem_params h
      cases c
      simp only [TypeTerm.constraint.sizeOf_spec, Constraint.mk.sizeOf_spec] at this ⊢
      omega
  | qualified context body =>
      simp only [ofTypeTerm, List.mem_append, List.mem_singleton] at h
      rcases h with h | rfl
      · have := weight_lt_of_mem_constraints h
        simp only [TypeTerm.qualified.sizeOf_spec]; omega
      · simp only [weight, TypeTerm.qualified.sizeOf_spec]; omega
  | arrow inputs output =>
      simp only [ofTypeTerm, List.mem_append, List.mem_singleton] at h
      rcases h with h | rfl
      · have := weight_lt_of_mem_params h
        simp only [TypeTerm.arrow.sizeOf_spec]; omega
      · simp only [weight, TypeTerm.arrow.sizeOf_spec]; omega
  | apply base args =>
      simp only [ofTypeTerm, List.mem_cons] at h
      rcases h with rfl | h
      · simp only [weight, TypeTerm.apply.sizeOf_spec]; omega
      · have := weight_lt_of_mem_params h
        simp only [TypeTerm.apply.sizeOf_spec]; omega
  | list element =>
      simp only [ofTypeTerm, List.mem_singleton] at h
      subst h
      simp only [weight, TypeTerm.list.sizeOf_spec]; omega
  | tuple elements =>
      have := weight_lt_of_mem_params h
      simp only [TypeTerm.tuple.sizeOf_spec]; omega
  | data name cases =>
      simp only [ofTypeTerm, List.mem_map, List.mem_flatMap] at h
      obtain ⟨t, ⟨c, hc, ht⟩, rfl⟩ := h
      have h1 := List.sizeOf_lt_of_mem hc
      have h2 := List.sizeOf_lt_of_mem ht
      cases c
      simp only [weight, TypeTerm.data.sizeOf_spec, DataCase.mk.sizeOf_spec] at h1 h2 ⊢
      omega
  | conditional a b c =>
      simp only [ofTypeTerm, List.mem_cons, List.not_mem_nil, or_false] at h
      rcases h with rfl | rfl | rfl <;>
        simp only [weight, TypeTerm.conditional.sizeOf_spec] <;> omega

theorem weight_lt_of_mem_ofClauseBody {b : ClauseBody} {n : Node} (h : n ∈ ofClauseBody b) :
    n.weight < 2 * sizeOf b := by
  cases b with
  | unguarded e =>
      simp only [ofClauseBody, List.mem_singleton] at h
      subst h
      simp only [weight, ClauseBody.unguarded.sizeOf_spec]; omega
  | guarded gs =>
      simp only [ofClauseBody, List.mem_map] at h
      obtain ⟨g, hg, rfl⟩ := h
      have := List.sizeOf_lt_of_mem hg
      simp only [weight, ClauseBody.guarded.sizeOf_spec]; omega

theorem weight_ofDeclaration_lt (d : Declaration) : (ofDeclaration d).weight < 2 * sizeOf d := by
  cases d <;>
    simp only [ofDeclaration, weight, Declaration.typeAlias.sizeOf_spec,
      Declaration.signature.sizeOf_spec, Declaration.function.sizeOf_spec,
      Declaration.record.sizeOf_spec] <;>
    omega

/-- Every child is smaller than its parent, so a walk down the tree ends. -/
theorem weight_lt_of_mem_children {node child : Node} (h : child ∈ node.children) :
    child.weight < node.weight := by
  cases node with
  | program p =>
      cases p
      simp only [children, List.mem_map] at h
      obtain ⟨d, hd, rfl⟩ := h
      have h1 := List.sizeOf_lt_of_mem hd
      have h2 := weight_ofDeclaration_lt d
      change _ < 2 * sizeOf (Program.mk _)
      simp only [Program.mk.sizeOf_spec]; omega
  | function g =>
      cases g
      simp only [children, List.mem_cons, List.mem_map] at h
      rcases h with rfl | ⟨c, hc, rfl⟩
      · simp only [weight, FunctionGroup.mk.sizeOf_spec]; omega
      · have := List.sizeOf_lt_of_mem hc
        simp only [weight, FunctionGroup.mk.sizeOf_spec]; omega
  | clause c =>
      cases c
      change _ < 2 * sizeOf (Clause.mk _ _ _ _)
      simp only [children, List.mem_append] at h
      rcases h with (h | h) | h
      · have := weight_lt_of_mem_patterns h
        simp only [Clause.mk.sizeOf_spec]; omega
      · have := weight_lt_of_mem_ofClauseBody h
        simp only [Clause.mk.sizeOf_spec]; omega
      · have := weight_lt_of_mem_ofClauseBody h
        simp only [Clause.mk.sizeOf_spec]; omega
  | guard g =>
      cases g
      simp only [children, List.mem_cons, List.not_mem_nil, or_false] at h
      rcases h with rfl | rfl | rfl <;> simp only [weight, Guard.mk.sizeOf_spec] <;> omega
  | signature s =>
      cases s
      simp only [children, List.mem_cons, List.mem_append, List.not_mem_nil, or_false] at h
      rcases h with rfl | (h | h) | rfl
      · simp only [weight, Signature.mk.sizeOf_spec]; omega
      · have := weight_lt_of_mem_constraints h
        change _ < 2 * sizeOf (Signature.mk _ _ _ _)
        simp only [Signature.mk.sizeOf_spec]; omega
      · have := weight_lt_of_mem_params h
        change _ < 2 * sizeOf (Signature.mk _ _ _ _)
        simp only [Signature.mk.sizeOf_spec]; omega
      · simp only [weight, Signature.mk.sizeOf_spec]; omega
  | typeAlias a =>
      cases a
      simp only [children, List.mem_cons, List.not_mem_nil, or_false] at h
      rcases h with rfl | rfl <;> simp only [weight, TypeAlias.mk.sizeOf_spec] <;> omega
  | record r =>
      cases r
      simp only [children, List.mem_cons, List.mem_map] at h
      rcases h with rfl | ⟨c, hc, rfl⟩
      · simp only [weight, Record.mk.sizeOf_spec]; omega
      · have := List.sizeOf_lt_of_mem hc
        simp only [weight, Record.mk.sizeOf_spec]; omega
  | constructor c =>
      cases c
      simp only [children, List.mem_map] at h
      obtain ⟨f, hf, rfl⟩ := h
      have := List.sizeOf_lt_of_mem hf
      simp only [weight, Constructor.mk.sizeOf_spec]; omega
  | field f =>
      cases f
      simp only [children, List.mem_append, List.mem_map, List.mem_singleton] at h
      rcases h with ⟨s, _, rfl⟩ | rfl <;> simp only [weight, Field.mk.sizeOf_spec] <;> omega
  | constraint c =>
      cases c
      have := weight_lt_of_mem_params h
      change _ < 2 * sizeOf (Constraint.mk _ _)
      simp only [Constraint.mk.sizeOf_spec] at this ⊢
      omega
  | expression e =>
      simp only [children, List.mem_singleton] at h
      subst h
      exact weight_ofForm_lt e
  | primitive p =>
      cases p with
      | list elements loc =>
          have := weight_lt_of_mem_expressions h
          change _ < 2 * sizeOf (Primitive.list _ _)
          simp only [Primitive.list.sizeOf_spec]; omega
      | _ => exact absurd h List.not_mem_nil
  | operation o =>
      cases o
      simp only [children, List.mem_cons, List.not_mem_nil, or_false] at h
      rcases h with rfl | rfl <;> simp only [weight, Operation.mk.sizeOf_spec] <;> omega
  | tuple elements =>
      have := weight_lt_of_mem_expressions h
      change _ < 2 * sizeOf (Expression.tuple _)
      simp only [Expression.tuple.sizeOf_spec]; omega
  | conditional a b c =>
      simp only [children, List.mem_cons, List.not_mem_nil, or_false] at h
      rcases h with rfl | rfl | rfl <;>
        simp only [weight, Expression.conditional.sizeOf_spec] <;> omega
  | cons a b | composition a b | application a b =>
      simp only [children, List.mem_cons, List.not_mem_nil, or_false] at h
      rcases h with rfl | rfl <;>
        simp only [weight, Expression.cons.sizeOf_spec, Expression.composition.sizeOf_spec,
          Expression.application.sizeOf_spec] <;>
        omega
  | data name fields =>
      simp only [children, List.mem_cons, List.mem_map] at h
      rcases h with rfl | ⟨f, hf, rfl⟩
      · simp only [weight, Expression.data.sizeOf_spec]; omega
      · have := List.sizeOf_lt_of_mem hf
        simp only [weight, Expression.data.sizeOf_spec]; omega
  | fieldExpression f =>
      cases f
      simp only [children, List.mem_cons, List.not_mem_nil, or_false] at h
      rcases h with rfl | rfl <;> simp only [weight, FieldExpression.mk.sizeOf_spec] <;> omega
  | lambda ps body =>
      simp only [children, List.mem_append, List.mem_singleton] at h
      rcases h with h | rfl
      · have := weight_lt_of_mem_patterns h
        change _ < 2 * sizeOf (Expression.lambda _ _)
        simp only [Expression.lambda.sizeOf_spec]; omega
      · simp only [weight, Expression.lambda.sizeOf_spec]; omega
  | infixed op a b =>
      simp only [children, List.mem_cons, List.not_mem_nil, or_false] at h
      rcases h with rfl | rfl | rfl <;>
        simp only [weight, Expression.infixed.sizeOf_spec] <;> omega
  | pattern p => exact weight_lt_of_mem_ofPattern h
  | typeTerm t => exact weight_lt_of_mem_ofTypeTerm h
  | symbol _ => exact absurd h List.not_mem_nil

end Node

end Rubric
