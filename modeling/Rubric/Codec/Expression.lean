import Rubric.Codec.Location
import Rubric.Syntax.Expression

/-!
# Expressions and patterns in JSON

An expression is written as a record with its form as the only field. Literals,
operations and patterns are choices whose cases have fields of their own; the other forms
of expressions carry a record each.
-/

namespace Rubric

namespace Operator

def family : Operator → String
  | arithmetic _ => "Arithmetic"
  | comparison _ => "Comparison"
  | logical _ => "Logical"
  | bitwise _ => "Bitwise"
  | concat => "Concat"

/-- The field for the operator, which the single operator of its family does not need. -/
def member : Operator → List (String × Json)
  | concat => []
  | operator => [("operator", .string operator.text)]

end Operator

namespace Expression

mutual

def encode : Expression → Json
  | primitive p => .object [("body", .tagged "Primitive" (encodePrimitive p))]
  | operation o => .object [("body", .tagged "Operation" (encodeOperation o))]
  | tuple elements =>
      .object [("body", .tagged "Tuple" (.object [("elements", .array (encodeAll elements))]))]
  | conditional condition yes no =>
      .object [("body", .tagged "IfThenElse" (.object
        [("condition", condition.encode), ("then", yes.encode), ("else", no.encode)]))]
  | cons head tail =>
      .object [("body", .tagged "Cons" (.object
        [("head", head.encode), ("tail", tail.encode)]))]
  | data name fields =>
      .object [("body", .tagged "Data" (.object
        [("name", name.encode), ("contents", .array (encodeFields fields))]))]
  | composition left right =>
      .object [("body", .tagged "Composition" (.object
        [("left", left.encode), ("right", right.encode)]))]
  | lambda parameters body =>
      .object [("body", .tagged "Lambda" (.object
        [("parameters", .array (encodePatterns parameters)), ("body", body.encode)]))]
  | application f argument =>
      .object [("body", .tagged "Application" (.object
        [("function", f.encode), ("parameter", argument.encode)]))]
  | infixed operator left right =>
      .object [("body", .tagged "InfixApplication" (.object
        [("operator", operator.encode), ("left", left.encode), ("right", right.encode)]))]

def encodeField : FieldExpression → Json
  | ⟨name, value⟩ => .object [("name", name.encode), ("expression", value.encode)]

def encodePrimitive : Primitive → Json
  | .number kind value loc =>
      .tagged "Number" (.object
        [("numericType", .string kind), ("value", .ofFloat value), ("loc", loc.encode)])
  | .boolean value loc =>
      .tagged "Boolean" (.object [("value", .bool value), ("loc", loc.encode)])
  | .char value loc => .tagged "Char" (.object [("value", .string value), ("loc", loc.encode)])
  | .string value loc =>
      .tagged "String" (.object [("value", .string value), ("loc", loc.encode)])
  | .null loc => .tagged "Null" (.object [("loc", loc.encode)])
  | .undefined loc => .tagged "Undefined" (.object [("loc", loc.encode)])
  | .symbol s => .tagged "Symbol" s.encode
  | .list elements loc =>
      .tagged "List" (.object [("elements", .array (encodeAll elements)), ("loc", loc.encode)])

def encodeOperation : Operation → Json
  | ⟨operator, left, right, loc⟩ =>
      .tagged operator.family (.object (operator.member ++
        [("left", left.encode), ("right", right.encode), ("loc", loc.encode)]))

def encodePattern : Pattern → Json
  | .wildcard => .string "Wildcard"
  | .literal p => .tagged "Literal" (encodePrimitive p)
  | .var s => .tagged "Variable" s.encode
  | .constructor name patterns =>
      .tagged "Constructor" (.object
        [("name", .string name), ("patterns", .array (encodePatterns patterns))])
  | .list elements => .tagged "List" (.object [("elements", .array (encodePatterns elements))])
  | .cons head tail =>
      .tagged "Cons" (.object [("head", encodePattern head), ("tail", encodePattern tail)])
  | .as whole pattern =>
      .tagged "As" (.object [("alias", encodePattern whole), ("pattern", encodePattern pattern)])
  | .tuple elements =>
      .tagged "Tuple" (.object [("elements", .array (encodePatterns elements))])

def encodeAll : List Expression → List Json
  | [] => []
  | e :: rest => e.encode :: encodeAll rest

def encodeFields : List FieldExpression → List Json
  | [] => []
  | f :: rest => encodeField f :: encodeFields rest

def encodePatterns : List Pattern → List Json
  | [] => []
  | p :: rest => encodePattern p :: encodePatterns rest

end

/-! ## Decoding one level -/

def operatorOf {α : Type} (all : List α) (text : α → String) : Decoder α :=
  .variants (all.map fun operator => (text operator, .bare operator))

def arithmeticOperator : Decoder ArithmeticOperator :=
  operatorOf ArithmeticOperator.all ArithmeticOperator.text

def comparisonOperator : Decoder ComparisonOperator :=
  operatorOf ComparisonOperator.all ComparisonOperator.text

def logicalOperator : Decoder LogicalOperator :=
  operatorOf LogicalOperator.all LogicalOperator.text

def bitwiseOperator : Decoder BitwiseOperator :=
  operatorOf BitwiseOperator.all BitwiseOperator.text

def primitiveOf (expression : Decoder Expression) : Decoder Primitive :=
  .variants
    [ ("Number", .fields
        (Primitive.number <$> Fields.required "numericType" .string
          <*> Fields.required "value" .number <*> Span.field)),
      ("Boolean", .fields
        (Primitive.boolean <$> Fields.required "value" .boolean <*> Span.field)),
      ("Char", .fields (Primitive.char <$> Fields.required "value" .string <*> Span.field)),
      ("String", .fields (Primitive.string <$> Fields.required "value" .string <*> Span.field)),
      ("Null", .fields (Primitive.null <$> Span.field)),
      ("Undefined", .fields (Primitive.undefined <$> Span.field)),
      ("Symbol", .single (.map Primitive.symbol Symbol.decoder)),
      ("List", .fields
        (Primitive.list <$> Fields.required "elements" (.sequence expression) <*> Span.field)) ]

def operandFields (expression : Decoder Expression) (operator : Fields Operator) :
    Fields Operation :=
  Operation.mk <$> operator <*> Fields.required "left" expression
    <*> Fields.required "right" expression <*> Span.field

def operationOf (expression : Decoder Expression) : Decoder Operation :=
  .variants
    [ ("Arithmetic", .fields (operandFields expression
        (Operator.arithmetic <$> Fields.required "operator" arithmeticOperator))),
      ("Comparison", .fields (operandFields expression
        (Operator.comparison <$> Fields.required "operator" comparisonOperator))),
      ("Logical", .fields (operandFields expression
        (Operator.logical <$> Fields.required "operator" logicalOperator))),
      ("Bitwise", .fields (operandFields expression
        (Operator.bitwise <$> Fields.required "operator" bitwiseOperator))),
      ("Concat", .fields (operandFields expression (pure Operator.concat))) ]

def patternOf (expression : Decoder Expression) (pattern : Decoder Pattern) : Decoder Pattern :=
  .variants
    [ ("Wildcard", .bare Pattern.wildcard),
      ("Literal", .single (.map Pattern.literal (primitiveOf expression))),
      ("Variable", .single (.map Pattern.var Symbol.decoder)),
      ("Constructor", .fields
        (Pattern.constructor <$> Fields.required "name" .string
          <*> Fields.required "patterns" (.sequence pattern))),
      ("List", .fields (Pattern.list <$> Fields.required "elements" (.sequence pattern))),
      ("Cons", .fields
        (Pattern.cons <$> Fields.required "head" pattern <*> Fields.required "tail" pattern)),
      ("As", .fields
        (Pattern.as <$> Fields.required "alias" pattern <*> Fields.required "pattern" pattern)),
      ("Tuple", .fields (Pattern.tuple <$> Fields.required "elements" (.sequence pattern))) ]

def fieldOf (expression : Decoder Expression) : Decoder FieldExpression :=
  .record "FieldExpression"
    (FieldExpression.mk <$> Fields.required "name" Symbol.decoder
      <*> Fields.required "expression" expression)

def formOf (expression : Decoder Expression) (pattern : Decoder Pattern) : Decoder Expression :=
  .variants
    [ ("Primitive", .single (.map primitive (primitiveOf expression))),
      ("Operation", .single (.map operation (operationOf expression))),
      ("Tuple", .single (.record "TupleExpression"
        (tuple <$> Fields.required "elements" (.sequence expression)))),
      ("IfThenElse", .single (.record "IfThenElse"
        (conditional <$> Fields.required "condition" expression
          <*> Fields.required "then" expression <*> Fields.required "else" expression))),
      ("Cons", .single (.record "ConsExpression"
        (cons <$> Fields.required "head" expression <*> Fields.required "tail" expression))),
      ("Data", .single (.record "DataExpression"
        (data <$> Fields.required "name" Symbol.decoder
          <*> Fields.required "contents" (.sequence (fieldOf expression))))),
      ("Composition", .single (.record "CompositionExpression"
        (composition <$> Fields.required "left" expression
          <*> Fields.required "right" expression))),
      ("Lambda", .single (.record "LambdaExpression"
        (lambda <$> Fields.required "parameters" (.sequence pattern)
          <*> Fields.required "body" expression))),
      ("Application", .single (.record "Application"
        (application <$> Fields.required "function" expression
          <*> Fields.required "parameter" expression))),
      ("InfixApplication", .single (.record "InfixApplication"
        (infixed <$> Fields.required "operator" Symbol.decoder
          <*> Fields.required "left" expression <*> Fields.required "right" expression))) ]

def expressionOf (form : Decoder Expression) : Decoder Expression :=
  .record "Expression" (Fields.required "body" form)

/-! ## Decoding all levels -/

mutual

/-- An expression that is nested no deeper than the given number of terms. -/
def decoderWithin : Nat → Decoder Expression
  | 0 => fun _ _ => .error .tooDeep
  | levels + 1 => expressionOf (formOf (decoderWithin levels) (patternDecoderWithin levels))

def patternDecoderWithin : Nat → Decoder Pattern
  | 0 => fun _ _ => .error .tooDeep
  | levels + 1 => patternOf (decoderWithin levels) (patternDecoderWithin levels)

end

/-- An expression from JSON. Each term inside another one is inside a container of its
own, so the containers that may be entered bound the nesting of terms. -/
def decoder : Decoder Expression :=
  fun reading json => decoderWithin (reading.remaining + 1) reading json

def formDecoder : Decoder Expression :=
  formOf decoder fun reading json => patternDecoderWithin (reading.remaining + 1) reading json

end Expression

namespace Pattern

def encode (p : Pattern) : Json := Expression.encodePattern p

def decoder : Decoder Pattern :=
  fun reading json => Expression.patternDecoderWithin (reading.remaining + 1) reading json

end Pattern

namespace Primitive

def encode (p : Primitive) : Json := Expression.encodePrimitive p

def decoder : Decoder Primitive := Expression.primitiveOf Expression.decoder

end Primitive

namespace Operation

def encode (o : Operation) : Json := Expression.encodeOperation o

def decoder : Decoder Operation := Expression.operationOf Expression.decoder

end Operation

end Rubric
