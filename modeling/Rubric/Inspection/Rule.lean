import Rubric.Data.Keyed

/-!
# Rules and verdicts

A rule names an inspection, gives it arguments and says which answer is expected. A
verdict tells whether the answer was the expected one. Arguments are kept in key order,
one for each key.
-/

namespace Rubric

/-- The value of an argument. -/
inductive ArgValue where
  | boolean (value : Bool)
  | number (value : Float)
  | string (value : String)
deriving BEq, Repr

namespace ArgValue

def string? : ArgValue → Option String
  | string value => some value
  | _ => none

def number? : ArgValue → Option Float
  | number value => some value
  | _ => none

end ArgValue

/-- The arguments of a rule, in key order. -/
structure Arguments where
  entries : List (String × ArgValue) := []
  sorted : Keyed.Sorted entries := by exact Keyed.sorted_nil
deriving Repr

namespace Arguments

instance : BEq Arguments := ⟨fun a b => a.entries == b.entries⟩

instance : Inhabited Arguments := ⟨{}⟩

def empty : Arguments := {}

/-- Set an argument, replacing an earlier value. -/
def set (args : Arguments) (key : String) (value : ArgValue) : Arguments :=
  ⟨Keyed.put key value args.entries, Keyed.sorted_put key value args.sorted⟩

def ofList (entries : List (String × ArgValue)) : Arguments :=
  entries.foldl (fun args entry => args.set entry.1 entry.2) empty

def get? (args : Arguments) (key : String) : Option ArgValue :=
  Keyed.get? args.entries key

/-- Setting an argument changes its own value only. -/
@[simp] theorem get?_set (args : Arguments) (key k : String) (value : ArgValue) :
    (args.set key value).get? k = if key = k then some value else args.get? k :=
  Keyed.get?_put key k value args.entries

def isEmpty (args : Arguments) : Bool :=
  args.entries.isEmpty

def string? (args : Arguments) (key : String) : Option String :=
  (args.get? key).bind ArgValue.string?

def name? (args : Arguments) : Option String :=
  args.string? "name"

def usage? (args : Arguments) : Option String :=
  args.string? "usage"

def named (name : String) : Arguments :=
  empty.set "name" (.string name)

end Arguments

/-- A question about a program with its expected answer. -/
structure Rule where
  inspection : String
  args : Arguments := {}
  expected : Bool
deriving BEq, Repr

/-- The outcome of a rule. There is no answer when the inspection is unknown or failed. -/
structure Verdict where
  rule : Rule
  passed : Bool
  actual : Option Bool := none
  error : Option String := none
deriving BEq, Repr

/-- Why an inspection gave no answer. -/
inductive InspectionError where
  /-- A text argument is missing or not a text. -/
  | missingArgument (key : String)
  | failed (reason : String)
deriving DecidableEq, Repr

namespace InspectionError

def message : InspectionError → String
  | missingArgument key => "missing string argument `" ++ key ++ "`"
  | failed reason => reason

end InspectionError

namespace Arguments

def require (args : Arguments) (key : String) : Except InspectionError String :=
  match args.string? key with
  | some value => .ok value
  | none => .error (.missingArgument key)

end Arguments

end Rubric
