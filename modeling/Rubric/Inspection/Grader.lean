import Rubric.Data.Table
import Rubric.Inspection.Builtin
import Rubric.Typing.Checking

/-!
# Graders

A grader knows inspections by name and type checkers by language. It starts with the
built-in ones and more can be added. Rules are graded one by one: an inspection that is
unknown or fails affects its own verdict only.
-/

namespace Rubric

abbrev Inspection := Program → Arguments → Except InspectionError Bool

abbrev TypeChecker := Program → List String

/-- The inspections and type checkers that rules and languages can name. -/
structure Grader where
  inspections : Table String Inspection
  checkers : Table String TypeChecker

namespace Grader

def ofBuiltin (builtin : Builtin) : Inspection :=
  fun program args => .ok (builtin.evaluate program args)

def signatureLanguage : String := "haskell"

def standard (orders : Orders := {}) : Grader where
  inspections := .ofList (Builtin.all.map fun builtin => (builtin.text, ofBuiltin builtin))
  checkers := .singleton signatureLanguage fun program => program.check orders

def knows (grader : Grader) (name : String) : Bool :=
  grader.inspections.contains name

/-- Add an inspection, replacing an earlier one of the same name. -/
def addInspection (grader : Grader) (name : String) (inspection : Inspection) : Grader :=
  { grader with inspections := grader.inspections.insert name inspection }

def addChecker (grader : Grader) (language : String) (checker : TypeChecker) : Grader :=
  { grader with checkers := grader.checkers.insert language checker }

def typeCheck? (grader : Grader) (language : String) (program : Program) :
    Option (List String) :=
  (grader.checkers.get? language).map fun checker => checker program

def unknownInspection : String := "Unknown inspection"

def grade (grader : Grader) (program : Program) (rule : Rule) : Verdict :=
  match grader.inspections.get? rule.inspection with
  | none => { rule, passed := false, error := some unknownInspection }
  | some inspection =>
      match inspection program rule.args with
      | .ok actual => { rule, passed := actual == rule.expected, actual := some actual }
      | .error _ => { rule, passed := false }

def gradeAll (grader : Grader) (program : Program) (rules : List Rule) : List Verdict :=
  rules.map (grader.grade program)

end Grader

end Rubric
