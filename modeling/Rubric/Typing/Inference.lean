import Rubric.Typing.Session

/-!
# Inference

The type of an expression is found by one pass over it: a new variable wherever a type
is not known yet, and an equation wherever two types have to agree. Patterns are matched
against the type of the value they take apart and bind their names in the innermost
scope. Equations are submitted in the order in which the parts are written, so the first
disagreement is the one that is reported.
-/

namespace Rubric

namespace Setting

variable (setting : Setting)

/-! ## Names -/

/-- The type of a declared name, a data constructor or a built-in name; a name that is
none of these may have any type. Declared types are copied with new variables. -/
def lookup (name : String) : Check Ty := do
  let session ← get
  match session.scopes.lookup name with
  | some t => pure t
  | none =>
      match setting.globals.signatures.get? name with
      | some signature => do
          let ((inputs, output), _) ← Check.lowering {} signature.lower
          pure (.curried inputs output)
      | none =>
          match setting.globals.constructors.get? name with
          | some info => do
              let (fields, _) ← Check.lowering {} (TypeTerm.lowerAll (info.fields.map Field.value))
              pure (.curried fields (.con info.record))
          | none =>
              match Prelude.builtin? name with
              | some scheme => do
                  let types ← Check.freshFor (List.range scheme.arity)
                  pure (scheme.instantiate types)
              | none => Check.fresh

def declares (scopes : Scopes) (name : String) : Bool :=
  (scopes.lookup name).isSome || setting.globals.signatures.contains name ||
    setting.globals.constructors.contains name

/-! ## Equations -/

def constrain (expected found : Ty) : Check Unit :=
  Check.constrain setting.aliases setting.literals expected found

def constrainIn (context : String) (expected found : Ty) : Check Unit :=
  Check.inContext context (setting.constrain expected found)

/-! ## Operands -/

/-- Accept an operand whose type is still a variable or, after alias expansion, is in the
domain of the operator. The answer is its type as far as it is known. -/
def checkOperand (operator : String) (operand : Ty) (allowed : Ty → Bool) : Check Ty := do
  let resolved ← Check.resolve operand
  match setting.aliases.expand resolved with
  | .var _ => pure resolved
  | expanded =>
      if allowed expanded then pure resolved
      else throw (.unsupportedOperand operator resolved)

def isOneOf (names : List String) : Ty → Bool
  | .con name => name ∈ names
  | _ => false

def isJoinable : Ty → Bool
  | .list _ => true
  | .con name => name = "String"
  | _ => false

def joined (operator : String) (left right : Ty) : Check Ty := do
  setting.constrainIn ("operands of `" ++ operator ++ "`") left right
  setting.checkOperand operator left isJoinable

def operated (operator : Operator) (left right : Ty) : Check Ty := do
  let text := operator.text
  match operator with
  | .arithmetic _ => do
      setting.constrainIn ("operands of `" ++ text ++ "`") left right
      setting.checkOperand text left (isOneOf Ty.numericKinds)
  | .bitwise _ => do
      setting.constrainIn ("operands of `" ++ text ++ "`") left right
      setting.checkOperand text left (isOneOf Ty.integralKinds)
  | .comparison _ => do
      setting.constrainIn ("operands of `" ++ text ++ "`") left right
      pure .bool
  | .logical _ => do
      setting.constrainIn ("left operand of `" ++ text ++ "`") .bool left
      setting.constrainIn ("right operand of `" ++ text ++ "`") .bool right
      pure .bool
  | .concat => setting.joined text left right

/-- The numeric kind of literals whose kind the front end does not know. -/
def isGenericKind (kind : String) : Bool :=
  kind = "" || kind = "number"

/-- The constructor that a pattern names, if it has as many fields as patterns are
given. -/
def constructorFor (name : String) (given : Nat) : Check ConstructorInfo :=
  match setting.globals.constructors.get? name with
  | none => throw (.unknownConstructor name)
  | some info =>
      if info.fields.length = given then pure info
      else throw (.constructorArity name info.fields.length given)

/-! ## Expressions and patterns -/

mutual

def inferExpression : Expression → Check Ty
  | .primitive p => inferPrimitive p
  | .operation o => inferOperation o
  | .tuple elements => do
      let types ← inferAll elements
      pure (.tuple types)
  | .conditional condition yes no => do
      let conditionType ← inferExpression condition
      setting.constrainIn "if condition" .bool conditionType
      let yesType ← inferExpression yes
      let noType ← inferExpression no
      setting.constrainIn "else branch" yesType noType
      Check.resolve yesType
  | .cons head tail => do
      let headType ← inferExpression head
      let tailType ← inferExpression tail
      setting.constrainIn "tail of `:`" (.list headType) tailType
      Check.resolve (.list headType)
  | .data name fields =>
      match setting.globals.constructors.get? name.value with
      | none => throw (.unknownConstructor name.value)
      | some info =>
          if info.isPositional && info.fields.length != fields.length then
            throw (.constructorArity name.value info.fields.length fields.length)
          else do
            inferFields name.value info fields 0 {}
            pure (.con info.record)
  | .composition left right => do
      let leftType ← inferExpression left
      let rightType ← inferExpression right
      let a ← Check.fresh
      let b ← Check.fresh
      let c ← Check.fresh
      setting.constrainIn "left side of `.`" (.func b c) leftType
      setting.constrainIn "right side of `.`" (.func a b) rightType
      Check.resolve (.func a c)
  | .lambda parameters body => Check.inNewScope do
      let inputs ← bindParameters parameters
      let output ← inferExpression body
      Check.resolve (.curried inputs output)
  | .application f argument => do
      let functionType ← inferExpression f
      let argumentType ← inferExpression argument
      let result ← Check.fresh
      setting.constrainIn "application" functionType (.func argumentType result)
      Check.resolve result
  | .infixed operator left right => do
      let session ← get
      if operator.value = "++" && !setting.declares session.scopes operator.value then do
        let leftType ← inferExpression left
        let rightType ← inferExpression right
        setting.joined operator.value leftType rightType
      else do
        let operatorType ← setting.lookup operator.value
        let leftType ← inferExpression left
        let rightType ← inferExpression right
        let result ← Check.fresh
        setting.constrainIn ("operator `" ++ operator.value ++ "`") operatorType
          (.curried [leftType, rightType] result)
        Check.resolve result

def inferPrimitive : Primitive → Check Ty
  | .number kind _ _ =>
      if isGenericKind kind then Check.freshNumeric else pure (.con kind)
  | .boolean _ _ => pure .bool
  | .char _ _ => pure .char
  | .string _ _ => pure .string
  | .null _ => Check.fresh
  | .undefined _ => Check.fresh
  | .symbol symbol => setting.lookup symbol.value
  | .list elements _ => do
      let element ← Check.fresh
      inferElements element elements
      Check.resolve (.list element)

def inferOperation : Operation → Check Ty
  | ⟨operator, left, right, _⟩ => do
      let leftType ← inferExpression left
      let rightType ← inferExpression right
      setting.operated operator leftType rightType

def inferAll : List Expression → Check (List Ty)
  | [] => pure []
  | e :: rest => do
      let t ← inferExpression e
      let ts ← inferAll rest
      pure (t :: ts)

def inferElements (element : Ty) : List Expression → Check Unit
  | [] => pure ()
  | e :: rest => do
      let found ← inferExpression e
      setting.constrainIn "list element" element found
      inferElements element rest

/-- Require every given field value to have the type of its field. The written variables
of the fields are shared between the fields of one value. -/
def inferFields (name : String) (info : ConstructorInfo) :
    List FieldExpression → Nat → Table String TypeVar → Check Unit
  | [], _, _ => pure ()
  | ⟨fieldName, value⟩ :: rest, position, names =>
      match info.fieldFor? position fieldName.value with
      | none => throw (.unknownField name fieldName.value)
      | some field => do
          let (expected, names) ← Check.lowering names field.value.lower
          let found ← inferExpression value
          setting.constrainIn ("field `" ++ fieldName.value ++ "` of `" ++ name ++ "`")
            expected found
          inferFields name info rest (position + 1) names

/-- Match a pattern against the type of the value it takes apart, and bind its names. -/
def bindPattern : Pattern → Ty → Check Unit
  | .wildcard, _ => pure ()
  | .literal p, expected => do
      let found ← inferPrimitive p
      setting.constrainIn "literal pattern" expected found
  | .var symbol, expected => Check.bindName symbol.value expected
  | .constructor name patterns, expected =>
      if (name = "True" || name = "False") && patterns.isEmpty then
        setting.constrain expected .bool
      else do
        let info ← setting.constructorFor name patterns.length
        setting.constrainIn ("pattern `" ++ name ++ "`") expected (.con info.record)
        bindFields patterns info.fields {}
  | .list elements, expected => do
      let element ← Check.fresh
      setting.constrainIn "list pattern" expected (.list element)
      bindEach elements element
  | .cons head tail, expected => do
      let element ← Check.fresh
      setting.constrainIn "cons pattern" expected (.list element)
      bindPattern head element
      bindPattern tail (.list element)
  | .as whole pattern, expected => do
      bindPattern whole expected
      bindPattern pattern expected
  | .tuple elements, expected => do
      let types ← Check.freshFor elements
      setting.constrainIn "tuple pattern" expected (.tuple types)
      bindAll elements types

/-- Match patterns against the fields of a constructor. The written variables of the
fields are shared between the patterns. -/
def bindFields : List Pattern → List Field → Table String TypeVar → Check Unit
  | pattern :: rest, field :: fields, names => do
      let (expected, names) ← Check.lowering names field.value.lower
      bindPattern pattern expected
      bindFields rest fields names
  | _, _, _ => pure ()

def bindEach : List Pattern → Ty → Check Unit
  | [], _ => pure ()
  | pattern :: rest, expected => do
      bindPattern pattern expected
      bindEach rest expected

def bindAll : List Pattern → List Ty → Check Unit
  | pattern :: rest, expected :: types => do
      bindPattern pattern expected
      bindAll rest types
  | _, _ => pure ()

/-- Match the parameters of a lambda against new variables, which are the answer. -/
def bindParameters : List Pattern → Check (List Ty)
  | [] => pure []
  | pattern :: rest => do
      let t ← Check.fresh
      bindPattern pattern t
      let ts ← bindParameters rest
      pure (t :: ts)

end

end Setting

end Rubric
