import Rubric.Codec.Location
import Rubric.Inspection.Rule

/-!
# Rules and verdicts in JSON

Arguments are an object whose values are truth values, numbers or texts. A verdict is
written without the answer and the error that it does not have.
-/

namespace Rubric

namespace ArgValue

def encode : ArgValue → Json
  | boolean value => .bool value
  | number value => .ofFloat value
  | string value => .string value

def decoder : Decoder ArgValue
  | _, .bool value => .ok (boolean value)
  | _, .integer value => .ok (number (Decoder.nearest value))
  | _, .real value => .ok (number value)
  | _, .string value => .ok (string value)
  | _, _ => .error (.noAlternative "ArgValue")

end ArgValue

namespace Arguments

def encode (args : Arguments) : Json :=
  .object (args.entries.map fun entry => (entry.1, entry.2.encode))

def decoder : Decoder Arguments :=
  .map ofList (.members ArgValue.decoder)

end Arguments

namespace Rule

def encode (rule : Rule) : Json :=
  .object [("inspection", .string rule.inspection), ("args", rule.args.encode),
    ("expected", .bool rule.expected)]

def decoder : Decoder Rule :=
  .record "InspectionRule"
    (mk <$> Fields.required "inspection" .string
      <*> Fields.defaulted "args" .empty Arguments.decoder
      <*> Fields.required "expected" .boolean)

end Rule

namespace Verdict

def encode (verdict : Verdict) : Json :=
  .object ([("rule", verdict.rule.encode), ("passed", .bool verdict.passed)] ++
    Json.present "actual" .bool verdict.actual ++ Json.present "error" .string verdict.error)

def decoder : Decoder Verdict :=
  .record "AnalysisResult"
    (mk <$> Fields.required "rule" Rule.decoder <*> Fields.required "passed" .boolean
      <*> Fields.optional "actual" .boolean <*> Fields.optional "error" .string)

end Verdict

end Rubric
