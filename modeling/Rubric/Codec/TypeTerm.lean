import Rubric.Codec.Location
import Rubric.Syntax.TypeTerm

/-!
# Written types in JSON

A written type is a choice by name. Decoding follows the nesting of the JSON value, and
the number of containers that may still be entered bounds its recursion.
-/

namespace Rubric

namespace TypeTerm

mutual

def encode : TypeTerm → Json
  | var name => .tagged "Var" (.string name)
  | con name => .tagged "Constructor" (.string name)
  | constraint c => .tagged "Constraint" (encodeConstraint c)
  | qualified context body =>
      .tagged "Constrained"
        (.object [("context", .array (encodeConstraints context)), ("body", body.encode)])
  | arrow inputs output =>
      .tagged "Function"
        (.object [("from", .array (encodeAll inputs)), ("to", output.encode)])
  | apply base args =>
      .tagged "Application"
        (.object [("base", base.encode), ("args", .array (encodeAll args))])
  | list element => .tagged "List" element.encode
  | tuple elements => .tagged "Tuple" (.array (encodeAll elements))
  | data name cases =>
      .tagged "Data"
        (.object [("name", .string name), ("constructors", .array (encodeCases cases))])
  | conditional condition yes no =>
      .tagged "IfThenElse"
        (.object [("condition", condition.encode), ("then", yes.encode), ("else", no.encode)])

def encodeConstraint : Constraint → Json
  | ⟨className, params⟩ =>
      .object [("className", .string className), ("params", .array (encodeAll params))]

def encodeCase : DataCase → Json
  | ⟨name, fields⟩ => .object [("name", .string name), ("fields", .array (encodeAll fields))]

def encodeAll : List TypeTerm → List Json
  | [] => []
  | term :: rest => term.encode :: encodeAll rest

def encodeConstraints : List Constraint → List Json
  | [] => []
  | c :: rest => encodeConstraint c :: encodeConstraints rest

def encodeCases : List DataCase → List Json
  | [] => []
  | c :: rest => encodeCase c :: encodeCases rest

end

def constraintOf (term : Decoder TypeTerm) : Decoder Constraint :=
  .record "Constraint"
    (Constraint.mk <$> Fields.required "className" .string
      <*> Fields.required "params" (.sequence term))

def caseOf (term : Decoder TypeTerm) : Decoder DataCase :=
  .record "DataConstructor"
    (DataCase.mk <$> Fields.required "name" .string
      <*> Fields.required "fields" (.sequence term))

def termOf (term : Decoder TypeTerm) : Decoder TypeTerm :=
  .variants
    [ ("Var", .single (.map var .string)),
      ("Constructor", .single (.map con .string)),
      ("Constraint", .single (.map constraint (constraintOf term))),
      ("Constrained", .fields
        (qualified <$> Fields.required "context" (.sequence (constraintOf term))
          <*> Fields.required "body" term)),
      ("Function", .fields
        (arrow <$> Fields.required "from" (.sequence term) <*> Fields.required "to" term)),
      ("Application", .fields
        (apply <$> Fields.required "base" term <*> Fields.required "args" (.sequence term))),
      ("List", .single (.map list term)),
      ("Tuple", .single (.map tuple (.sequence term))),
      ("Data", .fields
        (data <$> Fields.required "name" .string
          <*> Fields.required "constructors" (.sequence (caseOf term)))),
      ("IfThenElse", .fields
        (conditional <$> Fields.required "condition" term <*> Fields.required "then" term
          <*> Fields.required "else" term)) ]

/-- A written type that is nested no deeper than the given number of terms. -/
def decoderWithin : Nat → Decoder TypeTerm
  | 0 => fun _ _ => .error .tooDeep
  | levels + 1 => termOf (decoderWithin levels)

/-- A written type from JSON. Each term inside another one is inside a container of its
own, so the containers that may be entered bound the nesting of terms. -/
def decoder : Decoder TypeTerm :=
  fun reading json => decoderWithin (reading.remaining + 1) reading json

end TypeTerm

namespace Constraint

def decoder : Decoder Constraint :=
  TypeTerm.constraintOf TypeTerm.decoder

end Constraint

end Rubric
