import Rubric.Codec.Program
import Rubric.Codec.Rule
import Rubric.CommandLine.Arguments
import Rubric.Inspection.Expectation
import Rubric.Inspection.Grader
import Rubric.Yaml.Document

/-!
# Runs and reports

A run reads the program, then the rules, then the expectations, and ends at the first
file that is missing or malformed. Its report holds the verdicts when rules or
expectations were given, and the type errors when they were asked for or when there was
nothing else to do.
-/

namespace Rubric

namespace CommandLine

/-- What the files of a run can be. -/
inductive FileRole where
  | program
  | rules
  | expectations
deriving DecidableEq, Repr

/-- Why a run has no report. -/
inductive Failure where
  | unreadable (role : FileRole) (path : String)
  | malformed (role : FileRole) (path : String)
  | noChecker (language : String)
deriving DecidableEq, Repr

namespace FileRole

def text : FileRole → String
  | program => "program"
  | rules => "rules"
  | expectations => "Mulang expectations"

end FileRole

namespace Failure

def message : Failure → String
  | unreadable role path => "failed to read " ++ role.text ++ " `" ++ path ++ "`"
  | malformed .program path => "`" ++ path ++ "` is not a valid program"
  | malformed .rules path => "`" ++ path ++ "` is not a valid rule list"
  | malformed .expectations path => "failed to translate `" ++ path ++ "`"
  | noChecker language => "no type checker for `" ++ language ++ "`"

end Failure

abbrev Files := String → Option String

def expectationsOf? (text : String) : Option (List Rule) :=
  (Yaml.parse? text).bind fun document => (Expectation.ofDocument document).toOption

def load {α : Type} (files : Files) (role : FileRole) (decode : String → Option α)
    (path : String) : Except Failure α :=
  match files path with
  | none => .error (.unreadable role path)
  | some text =>
      match decode text with
      | none => .error (.malformed role path)
      | some value => .ok value

/-- Read a file that may not have been given. -/
def loadAll {α : Type} (files : Files) (role : FileRole) (decode : String → Option (List α)) :
    Option String → Except Failure (List α)
  | none => .ok []
  | some path => load files role decode path

def typeErrors (language : String) (program : Program) : Except Failure (List String) :=
  match Grader.standard.typeCheck? language program with
  | some errors => .ok errors
  | none => .error (.noChecker language)

def report (files : Files) (options : Options) : Except Failure Json := do
  let program ← load files .program (Decoder.ofText? Program.decoder) options.program
  let native ← loadAll files .rules (Decoder.ofText? (.sequence Rule.decoder)) options.rules
  let translated ← loadAll files .expectations expectationsOf? options.expectations
  let hasRules := options.rules.isSome || options.expectations.isSome
  let verdicts := Grader.standard.gradeAll program (native ++ translated)
  let graded :=
    if hasRules then [("results", Json.array (verdicts.map Verdict.encode))] else []
  if options.typecheck || !hasRules then do
    let errors ← typeErrors (options.language.getD Grader.signatureLanguage) program
    pure (.object (graded ++ [("typeErrors", .array (errors.map .string))]))
  else
    pure (.object graded)

/-- What a run leaves behind: its exit status, its output and its complaint. -/
structure Outcome where
  status : Nat
  output : String := ""
  complaint : Option String := none
deriving DecidableEq, Repr

def version : String := "assay 0.1.0"

def usage : String :=
  "usage: assay PROGRAM [-r|--rules FILE] [-m|--mulang FILE] [-t|--typecheck] " ++
    "[--language LANGUAGE] [-l|--log-level LEVEL]"

def interrupted : Interruption → Outcome
  | .version => { status := 0, output := version ++ "\n" }
  | .help => { status := 0, output := usage ++ "\n" }
  | _ => { status := 2, complaint := some usage }

def run (files : Files) (options : Options) : Outcome :=
  match report files options with
  | .ok json => { status := 0, output := json.canonical.pretty ++ "\n" }
  | .error failure => { status := 1, complaint := some ("Error: " ++ failure.message) }

def respond (files : Files) (arguments : List String) : Outcome :=
  match Options.parse arguments with
  | .ok options => run files options
  | .error interruption => interrupted interruption

end CommandLine

end Rubric
