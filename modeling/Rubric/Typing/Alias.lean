import Rubric.Data.Table
import Rubric.Typing.Ty

/-!
# Type aliases

An alias is a second name for a type. Expansion replaces alias names at the head of a
type, alone or applied to arguments, and uses each alias at most once; an alias that
leads back to itself therefore stops at the first repetition.
-/

namespace Rubric

/-- The types that alias names stand for. -/
structure Aliases where
  table : Table String Ty := {}
deriving Repr

namespace Aliases

instance : Inhabited Aliases := ⟨{}⟩

def empty : Aliases := ⟨.empty⟩

def get? (aliases : Aliases) (name : String) : Option Ty := aliases.table.get? name

def contains (aliases : Aliases) (name : String) : Bool := aliases.table.contains name

def insert (aliases : Aliases) (name : String) (t : Ty) : Aliases :=
  ⟨aliases.table.insert name t⟩

def erase (aliases : Aliases) (name : String) : Aliases :=
  ⟨aliases.table.erase name⟩

def ofList (declared : List (String × Ty)) : Aliases :=
  ⟨.ofList declared⟩

/-- Replace the alias name at the head of a type, and say which name it was. -/
def unfoldHead (aliases : Aliases) : Ty → Option (String × Ty)
  | .con name => (aliases.get? name).map fun body => (name, body)
  | .app (.con name) args => (aliases.get? name).map fun body => (name, .app body args)
  | _ => none

/-- Replace alias names at the head, at most the given number of times. An alias that
was replaced is not available again. -/
def expandWithin : Nat → Aliases → Ty → Ty
  | 0, _, t => t
  | steps + 1, aliases, t =>
      match aliases.unfoldHead t with
      | none => t
      | some (name, t') => expandWithin steps (aliases.erase name) t'

/-- Replace alias names at the head until the head is no alias that is still unused. -/
def expand (aliases : Aliases) (t : Ty) : Ty :=
  expandWithin aliases.table.size aliases t

/-- The number of nodes of all alias bodies together, counting each name as one more. -/
def size (aliases : Aliases) : Nat :=
  aliases.table.entries.foldr (fun entry total => entry.2.size + 1 + total) 0

/-! ## What each operation does to a look-up -/

@[simp] theorem get?_empty (name : String) : empty.get? name = none := rfl

@[simp] theorem get?_insert (aliases : Aliases) (name n : String) (t : Ty) :
    (aliases.insert name t).get? n = if name = n then some t else aliases.get? n :=
  Table.get?_insert aliases.table name n t

theorem get?_erase (aliases : Aliases) (name n : String) :
    (aliases.erase name).get? n = if name = n then none else aliases.get? n :=
  Table.get?_erase aliases.table name n

end Aliases

end Rubric
