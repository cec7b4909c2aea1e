import Rubric.Codec.Decoder
import Rubric.Syntax.Location

/-!
# Locations and names in JSON

A location is written with both its positions. A name is written with its remark only if
it has one; its location may be left out when it is read, and then counts as unknown.
-/

namespace Rubric

namespace Json

def tagged (name : String) (payload : Json) : Json :=
  object [(name, payload)]

/-- The member for a field that is written only if it is present. -/
def present {α : Type} (key : String) (encode : α → Json) : Option α → List (String × Json)
  | none => []
  | some value => [(key, encode value)]

end Json

namespace Position

def encode (p : Position) : Json :=
  .object [("line", .ofNat p.line), ("column", .ofNat p.column), ("offset", .ofNat p.offset)]

def decoder : Decoder Position :=
  .record "Position"
    (mk <$> Fields.required "line" .natural <*> Fields.required "column" .natural
      <*> Fields.required "offset" .natural)

end Position

namespace Span

def encode (span : Span) : Json :=
  .object [("start", span.start.encode), ("end", span.stop.encode)]

def decoder : Decoder Span :=
  .record "SourceLocation"
    (mk <$> Fields.required "start" Position.decoder <*> Fields.required "end" Position.decoder)

/-- A location that may be left out. -/
def field : Fields Span :=
  Fields.defaulted "loc" unknown decoder

end Span

namespace Symbol

def encode (s : Symbol) : Json :=
  .object (("value", .string s.value) :: Json.present "description" .string s.description ++
    [("loc", s.loc.encode)])

def decoder : Decoder Symbol :=
  .record "Symbol"
    (mk <$> Fields.required "value" .string <*> Fields.optional "description" .string
      <*> Span.field)

end Symbol

end Rubric
