/-!
# Command-line arguments

A command line names a program file and options. Options with a value take it from the
same argument or from the next one, single-letter options can be written together, and
after two dashes everything is a file name.

Some faults are found while the arguments are read and some only at the end, because a
request for the version that comes first is answered in spite of the latter.
-/

namespace Rubric

namespace CommandLine

/-- The options. -/
inductive Switch where
  | rules
  | expectations
  | typecheck
  | language
  | logLevel
deriving DecidableEq, Repr

namespace Switch

def takesValue : Switch → Bool
  | typecheck => false
  | _ => true

def ofLong? (name : String) : Option Switch :=
  if name = "rules" then some rules
  else if name = "mulang" then some expectations
  else if name = "typecheck" then some typecheck
  else if name = "language" then some language
  else if name = "log-level" then some logLevel
  else none

def ofShort? (name : Char) : Option Switch :=
  if name = 'r' then some rules
  else if name = 'm' then some expectations
  else if name = 't' then some typecheck
  else if name = 'l' then some logLevel
  else none

end Switch

/-- What a command line asks for when it is at fault or asks about the tool itself. -/
inductive Interruption where
  | version
  | help
  | unknownOption (argument : String)
  | needlessValue (switch : Switch)
  | extraArgument (argument : String)
  | missingValue (switch : Switch)
  | repeated (switch : Switch)
  | badLogLevel (level : String)
  | missingProgram
deriving DecidableEq, Repr

/-- What has been read of a command line: the file names, the options with their values,
and the option whose value is still to come. -/
structure Progress where
  program : Option String := none
  given : List (Switch × Option String) := []
  waiting : Option Switch := none

namespace Progress

/-- An option that still waits for its value does not get one any more. -/
def settle (progress : Progress) : Progress :=
  match progress.waiting with
  | none => progress
  | some switch =>
      { progress with given := progress.given ++ [(switch, none)], waiting := none }

def give (progress : Progress) (switch : Switch) (value : String) : Progress :=
  { progress.settle with given := progress.settle.given ++ [(switch, some value)] }

/-- An option that takes no value, or whose value is still to come. -/
def await (progress : Progress) (switch : Switch) : Progress :=
  let progress := progress.settle
  if switch.takesValue then
    { progress with waiting := some switch }
  else
    { progress with given := progress.given ++ [(switch, some "")] }

/-- An argument that is no option: a value that was waited for, or the program. -/
def word (progress : Progress) (argument : String) : Except Interruption Progress :=
  match progress.waiting, progress.program with
  | some switch, _ => .ok ({ progress with waiting := none }.give switch argument)
  | none, none => .ok { progress with program := some argument }
  | none, some _ => .error (.extraArgument argument)

def name (progress : Progress) (argument : String) : Except Interruption Progress :=
  progress.settle.word argument

def long (progress : Progress) (argument : List Char) : Except Interruption Progress :=
  let label := String.ofList (argument.takeWhile (· ≠ '='))
  let value := (argument.dropWhile (· ≠ '=')).drop 1
  if argument = "version".toList then .error .version
  else if argument = "help".toList then .error .help
  else
    match Switch.ofLong? label with
    | none => .error (.unknownOption ("--" ++ String.ofList argument))
    | some switch =>
        if '=' ∈ argument then
          if switch.takesValue then .ok (progress.give switch (String.ofList value))
          else .error (.needlessValue switch)
        else .ok (progress.await switch)

/-- Short options written together. The rest of the argument after an option that takes a
value is that value. -/
def short (progress : Progress) : List Char → Except Interruption Progress
  | [] => .ok progress
  | c :: rest =>
      if c = 'V' then .error .version
      else if c = 'h' then .error .help
      else
        match Switch.ofShort? c with
        | none => .error (.unknownOption ("-" ++ String.ofList [c]))
        | some switch =>
            if switch.takesValue then
              match rest with
              | [] => .ok (progress.await switch)
              | '=' :: value => .ok (progress.give switch (String.ofList value))
              | value => .ok (progress.give switch (String.ofList value))
            else short (progress.await switch) rest

def argument (progress : Progress) (text : String) : Except Interruption Progress :=
  match text.toList with
  | '-' :: '-' :: rest => progress.long rest
  | '-' :: c :: rest => progress.short (c :: rest)
  | _ => progress.word text

def read (progress : Progress) : List String → Except Interruption Progress
  | [] => .ok progress.settle
  | text :: rest =>
      if text = "--" then
        rest.foldlM name progress.settle
      else do
        let progress ← progress.argument text
        progress.read rest

end Progress

/-- What to do: the program to grade, the files with rules and expectations, whether to
check types, and for which language. -/
structure Options where
  program : String
  rules : Option String
  expectations : Option String
  typecheck : Bool
  language : Option String
deriving DecidableEq, Repr

def logLevels : List String := ["off", "error", "warn", "info", "debug", "trace"]

namespace Progress

def values (progress : Progress) (switch : Switch) : List (Option String) :=
  (progress.given.filter fun entry => entry.1 = switch).map Prod.snd

def value (progress : Progress) (switch : Switch) : Except Interruption (Option String) :=
  match progress.values switch with
  | [] => .ok none
  | [some value] => .ok (some value)
  | [none] => .error (.missingValue switch)
  | _ => .error (.repeated switch)

def finish (progress : Progress) : Except Interruption Options := do
  let rules ← progress.value .rules
  let expectations ← progress.value .expectations
  let typecheck ← progress.value .typecheck
  let language ← progress.value .language
  let logLevel ← progress.value .logLevel
  match logLevel with
  | some level => if level ∈ logLevels then pure () else throw (.badLogLevel level)
  | none => pure ()
  match progress.program with
  | some program => pure ⟨program, rules, expectations, typecheck.isSome, language⟩
  | none => throw .missingProgram

end Progress

namespace Options

def parse (arguments : List String) : Except Interruption Options := do
  let progress ← Progress.read {} arguments
  progress.finish

def files (options : Options) : List String :=
  options.program :: (options.rules.toList ++ options.expectations.toList)

end Options

end CommandLine

end Rubric
