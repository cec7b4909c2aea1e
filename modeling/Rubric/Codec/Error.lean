import Rubric.Json.Writer
import Rubric.Text.Visible

/-!
# Decoding errors

Why a JSON value is not the encoding of anything. Errors are causes; their wording is in
`DecodeError.message`. A text that was met in the wrong place is shown between quotes.
-/

namespace Rubric

/-- Why a JSON value could not be decoded. -/
inductive DecodeError where
  /-- A value of another type than the expected one. -/
  | invalidType (found : Json) (expected : String)
  /-- A value of the expected type that is out of range. -/
  | invalidValue (found : Json) (expected : String)
  /-- The bare name of a variant that needs a payload. -/
  | bareVariant (expected : String)
  /-- A row with too few or too many elements. -/
  | invalidLength (length : Nat) (expected : String)
  | missingField (name : String)
  | repeatedField (name : String)
  | unknownVariant (name : String) (known : List String)
  /-- A value that fits none of the alternatives of a type. -/
  | noAlternative (type : String)
  /-- Containers nested deeper than allowed. -/
  | tooDeep

namespace DecodeError

def describe : Json → String
  | .null => "null"
  | .bool true => "boolean `true`"
  | .bool false => "boolean `false`"
  | .integer n => "integer `" ++ toString n ++ "`"
  | .real x => "floating point `" ++ Json.writeFloat x ++ "`"
  | .string s => "string " ++ Visible.quote s
  | .array _ => "sequence"
  | .object _ => "map"
  | .unusable => "value"

def quoted (name : String) : String :=
  "`" ++ name ++ "`"

/-- The names to choose from. Two are joined by "or". -/
def choices : List String → String
  | [a, b] => quoted a ++ " or " ++ quoted b
  | names => "one of " ++ ", ".intercalate (names.map quoted)

def message : DecodeError → String
  | invalidType found expected =>
      "invalid type: " ++ describe found ++ ", expected " ++ expected
  | invalidValue found expected =>
      "invalid value: " ++ describe found ++ ", expected " ++ expected
  | bareVariant expected => "invalid type: unit variant, expected " ++ expected
  | invalidLength length expected =>
      "invalid length " ++ toString length ++ ", expected " ++ expected
  | missingField name => "missing field " ++ quoted name
  | repeatedField name => "duplicate field " ++ quoted name
  | unknownVariant name known =>
      "unknown variant " ++ quoted name ++ ", expected " ++ choices known
  | noAlternative type => "data did not match any variant of untagged enum " ++ type
  | tooDeep => "recursion limit exceeded"

end DecodeError

end Rubric
