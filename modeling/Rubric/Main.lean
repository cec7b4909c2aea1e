import Rubric.CommandLine.Report

/-!
# The command-line tool

Files are read here and nothing else is decided here: the arguments and the texts of the
files determine the outcome.
-/

namespace Rubric

namespace CommandLine

def readFile? (path : String) : IO (Option String) := do
  try
    let text ← IO.FS.readFile path
    pure (some text)
  catch _ => pure none

def readFiles (arguments : List String) : IO Files := do
  match Options.parse arguments with
  | .error _ => pure fun _ => none
  | .ok options => do
      let texts ← options.files.mapM fun path => do
        let text ← readFile? path
        pure (path, text)
      pure fun path => (texts.find? fun entry => entry.1 = path).bind Prod.snd

end CommandLine

end Rubric

def main (arguments : List String) : IO UInt32 := do
  let files ← Rubric.CommandLine.readFiles arguments
  let outcome := Rubric.CommandLine.respond files arguments
  IO.print outcome.output
  match outcome.complaint with
  | some complaint => IO.eprintln complaint
  | none => pure ()
  pure outcome.status.toUInt32
