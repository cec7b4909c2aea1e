import Rubric.Inspection.Rule
import Rubric.Json.Writer

/-!
# Expectations in the Mulang dialect

A Mulang document lists expectations as pairs of a binding and an inspection. A leading
`Not:` asks for the opposite, and `Uses:` followed by a name asks for the use of that
name. Documents are read all or nothing: the first malformed expectation refuses the
whole document.
-/

namespace Rubric

/-- Why a document is not a list of expectations. -/
inductive ExpectationError where
  /-- There is no list of expectations. -/
  | invalidDocument
  /-- An expectation lacks a text for its inspection or its binding. -/
  | malformed (index : Nat) (entry : Json)

namespace ExpectationError

/-- The text of an error. An expectation is shown on one line with its keys in order. -/
def message : ExpectationError → String
  | invalidDocument => "invalid Mulang document: expected `expectations` to be an array"
  | malformed index entry =>
      "malformed Mulang expectation #" ++ toString index ++ ": " ++ entry.canonical.compact

end ExpectationError

namespace Expectation

/-- What a text continues with after a given beginning. -/
def after? (beginning text : String) : Option String :=
  if beginning.toList.isPrefixOf text.toList then
    some (String.ofList (text.toList.drop beginning.length))
  else
    none

def negation : String := "Not:"

def usage : String := "Uses:"

def positive (inspection binding : String) (expected : Bool) : Rule :=
  match after? usage inspection with
  | some used => ⟨"Uses", (Arguments.named binding).set "usage" (.string used), expected⟩
  | none => ⟨inspection, .named binding, expected⟩

def toRule (inspection binding : String) : Rule :=
  match after? negation inspection with
  | some rest => positive rest binding false
  | none => positive inspection binding true

def ofEntry? (entry : Json) : Option Rule := do
  let inspection ← (entry.get? "inspection").bind Json.string?
  let binding ← (entry.get? "binding").bind Json.string?
  some (toRule inspection binding)

/-- The rules of a list of expectations, counted from a given number on. -/
def ofEntries : Nat → List Json → Except ExpectationError (List Rule)
  | _, [] => .ok []
  | index, entry :: rest =>
      match ofEntry? entry with
      | none => .error (.malformed index entry)
      | some rule =>
          match ofEntries (index + 1) rest with
          | .ok rules => .ok (rule :: rules)
          | .error error => .error error

def ofDocument (document : Json) : Except ExpectationError (List Rule) :=
  match (document.get? "expectations").bind Json.array? with
  | none => .error .invalidDocument
  | some entries => ofEntries 0 entries

end Expectation

end Rubric
