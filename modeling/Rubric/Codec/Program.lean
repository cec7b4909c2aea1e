import Rubric.Codec.Expression
import Rubric.Codec.TypeTerm
import Rubric.Syntax.Program

/-!
# Programs in JSON

Declarations are choices whose payloads are records. The attributes of a clause and the
constraints of a signature may be left out, and then are empty.
-/

namespace Rubric

namespace Guard

def encode (g : Guard) : Json :=
  .object [("condition", g.condition.encode), ("body", g.body.encode),
    ("return", g.result.encode)]

def decoder : Decoder Guard :=
  .record "Guard"
    (mk <$> Fields.required "condition" Expression.decoder
      <*> Fields.required "body" Expression.decoder
      <*> Fields.required "return" Expression.decoder)

end Guard

namespace ClauseBody

def encode : ClauseBody → Json
  | unguarded e => .tagged "Unguarded" e.encode
  | guarded guards => .tagged "Guarded" (.array (guards.map Guard.encode))

def decoder : Decoder ClauseBody :=
  .variants
    [ ("Unguarded", .single (.map unguarded Expression.decoder)),
      ("Guarded", .single (.map guarded (.sequence Guard.decoder))) ]

end ClauseBody

namespace Clause

def encode (c : Clause) : Json :=
  .object [("parameters", .array (c.parameters.map Pattern.encode)), ("body", c.body.encode),
    ("return", c.result.encode), ("attributes", .array (c.attributes.map .string))]

def decoder : Decoder Clause :=
  .record "Clause"
    (mk <$> Fields.required "parameters" (.sequence Pattern.decoder)
      <*> Fields.required "body" ClauseBody.decoder
      <*> Fields.required "return" ClauseBody.decoder
      <*> Fields.defaulted "attributes" [] (.sequence .string))

end Clause

namespace FunctionGroup

def encode (g : FunctionGroup) : Json :=
  .object [("name", g.name.encode), ("contents", .array (g.clauses.map Clause.encode))]

def decoder : Decoder FunctionGroup :=
  .record "FunctionGroup"
    (mk <$> Fields.required "name" Symbol.decoder
      <*> Fields.required "contents" (.sequence Clause.decoder))

end FunctionGroup

namespace Signature

def encode (s : Signature) : Json :=
  .object [("name", s.name.encode),
    ("constraints", .array (s.constraints.map TypeTerm.encodeConstraint)),
    ("inputTypes", .array (s.inputs.map TypeTerm.encode)), ("returnType", s.output.encode)]

def decoder : Decoder Signature :=
  .record "FunctionTypeSignature"
    (mk <$> Fields.required "name" Symbol.decoder
      <*> Fields.defaulted "constraints" [] (.sequence Constraint.decoder)
      <*> Fields.required "inputTypes" (.sequence TypeTerm.decoder)
      <*> Fields.required "returnType" TypeTerm.decoder)

end Signature

namespace TypeAlias

def encode (a : TypeAlias) : Json :=
  .object [("name", a.name.encode), ("value", a.value.encode)]

def decoder : Decoder TypeAlias :=
  .record "TypeAlias"
    (mk <$> Fields.required "name" Symbol.decoder <*> Fields.required "value" TypeTerm.decoder)

end TypeAlias

namespace Field

def encode (f : Field) : Json :=
  .object (Json.present "name" Symbol.encode f.name ++ [("value", f.value.encode)])

def decoder : Decoder Field :=
  .record "Field"
    (mk <$> Fields.optional "name" Symbol.decoder <*> Fields.required "value" TypeTerm.decoder)

end Field

namespace Constructor

def encode (c : Constructor) : Json :=
  .object [("name", .string c.name), ("fields", .array (c.fields.map Field.encode))]

def decoder : Decoder Constructor :=
  .record "Constructor"
    (mk <$> Fields.required "name" .string
      <*> Fields.required "fields" (.sequence Field.decoder))

end Constructor

namespace Record

def encode (r : Record) : Json :=
  .object [("name", r.name.encode), ("contents", .array (r.constructors.map Constructor.encode))]

def decoder : Decoder Record :=
  .record "Record"
    (mk <$> Fields.required "name" Symbol.decoder
      <*> Fields.required "contents" (.sequence Constructor.decoder))

end Record

namespace Declaration

def encode : Declaration → Json
  | typeAlias a => .tagged "TypeAlias" a.encode
  | signature s => .tagged "TypeSignature" s.encode
  | function g => .tagged "Function" g.encode
  | record r => .tagged "Record" r.encode

def decoder : Decoder Declaration :=
  .variants
    [ ("TypeAlias", .single (.map typeAlias TypeAlias.decoder)),
      ("TypeSignature", .single (.map signature Signature.decoder)),
      ("Function", .single (.map function FunctionGroup.decoder)),
      ("Record", .single (.map record Record.decoder)) ]

end Declaration

namespace Program

def encode (p : Program) : Json :=
  .object [("declarations", .array (p.declarations.map Declaration.encode))]

def decoder : Decoder Program :=
  .record "Program" (mk <$> Fields.required "declarations" (.sequence Declaration.decoder))

end Program

end Rubric
