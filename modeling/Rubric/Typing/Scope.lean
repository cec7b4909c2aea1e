import Rubric.Data.Table
import Rubric.Typing.Ty

/-!
# Scopes

The types of the names that patterns have bound. Scopes nest: a lambda opens a new one,
names are added to the innermost one, and a name is looked up from the inside outwards.
-/

namespace Rubric

/-- The names bound in the innermost scope, and the scopes around it from the inside
outwards. -/
structure Scopes where
  inner : Table String Ty := {}
  outer : List (Table String Ty) := []
deriving Repr

namespace Scopes

instance : Inhabited Scopes := ⟨{}⟩

def empty : Scopes := {}

def toList (scopes : Scopes) : List (Table String Ty) :=
  scopes.inner :: scopes.outer

/-- The type of a name in the innermost scope that binds it. -/
def lookup (scopes : Scopes) (name : String) : Option Ty :=
  scopes.toList.findSome? fun scope => scope.get? name

def insert (scopes : Scopes) (name : String) (t : Ty) : Scopes :=
  { scopes with inner := scopes.inner.insert name t }

def push (scopes : Scopes) : Scopes :=
  ⟨.empty, scopes.toList⟩

/-! ## What each operation does to a look-up -/

@[simp] theorem lookup_empty (name : String) : empty.lookup name = none := rfl

@[simp] theorem lookup_insert (scopes : Scopes) (name n : String) (t : Ty) :
    (scopes.insert name t).lookup n = if name = n then some t else scopes.lookup n := by
  by_cases h : name = n <;> simp [insert, lookup, toList, List.findSome?_cons, h]

/-- A scope without names hides nothing. -/
@[simp] theorem lookup_push (scopes : Scopes) (name : String) :
    scopes.push.lookup name = scopes.lookup name := by
  simp [push, lookup, toList, List.findSome?_cons]

end Scopes

end Rubric
