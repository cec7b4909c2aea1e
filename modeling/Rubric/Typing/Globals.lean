import Rubric.Data.Table
import Rubric.Tree.Visit

/-!
# Declarations of a program

Signatures, aliases and data constructors are collected in one walk over the program
before any clause is checked. When a name is declared twice the later declaration wins.
-/

namespace Rubric

/-- The record a data constructor belongs to, and its fields. -/
structure ConstructorInfo where
  record : String
  fields : List Field
deriving Repr, Inhabited

namespace ConstructorInfo

def isPositional (info : ConstructorInfo) : Bool :=
  info.fields.all fun field => field.name.isNone

/-- The field that a value is given for: the one at its position if the fields are
positional, the first one of its name otherwise. -/
def fieldFor? (info : ConstructorInfo) (position : Nat) (name : String) : Option Field :=
  if info.isPositional then
    info.fields[position]?
  else
    info.fields.find? fun field => (field.name.map Symbol.value) == some name

end ConstructorInfo

/-- The declarations that clauses can refer to. -/
structure Globals where
  signatures : Table String Signature := {}
  aliases : Table String TypeTerm := {}
  constructors : Table String ConstructorInfo := {}

namespace Globals

instance : Inhabited Globals := ⟨{}⟩

def addConstructor (record : String) (globals : Globals) (constructor : Constructor) : Globals :=
  { globals with
    constructors := globals.constructors.insert constructor.name ⟨record, constructor.fields⟩ }

def note (globals : Globals) : Node → Globals
  | .signature s => { globals with signatures := globals.signatures.insert s.name.value s }
  | .typeAlias a => { globals with aliases := globals.aliases.insert a.name.value a.value }
  | .record r => r.constructors.foldl (addConstructor r.name.value) globals
  | _ => globals

def collect (program : Program) : Globals :=
  (Node.program program).subtree.foldl note {}

end Globals

end Rubric
