import Rubric.Data.Table
import Rubric.Typing.Ty

/-!
# Substitutions

A substitution binds type variables to types, and those types may mention further bound
variables. Applying one resolves such chains to the end. In a substitution without
cycles a chain visits every binding at most once, so following as many links as there
are bindings reaches the end of every chain.
-/

namespace Rubric

/-- Bindings of type variables. -/
structure Substitution where
  bindings : Table TypeVar Ty := {}
deriving Repr

namespace Substitution

instance : Inhabited Substitution := ⟨{}⟩

def empty : Substitution := ⟨.empty⟩

def singleton (v : TypeVar) (t : Ty) : Substitution := ⟨.singleton v t⟩

def get? (s : Substitution) (v : TypeVar) : Option Ty := s.bindings.get? v

def insert (s : Substitution) (v : TypeVar) (t : Ty) : Substitution :=
  ⟨s.bindings.insert v t⟩

def size (s : Substitution) : Nat := s.bindings.size

/-- Resolve a variable, following chains of at most the given number of links. -/
def chase (s : Substitution) : Nat → TypeVar → Ty
  | 0, v => .var v
  | links + 1, v =>
      match s.get? v with
      | none => .var v
      | some t => t.subst (s.chase links)

/-- Resolve every bound variable of a type to the end of its chain. On a cycle, which has
no end, it stops after as many links as there are bindings. -/
def apply (s : Substitution) (t : Ty) : Ty :=
  t.subst (s.chase s.size)

/-- One substitution followed by another: the bindings of the first are resolved in the
second, and the second adds the bindings that the first does not have. -/
def compose (first second : Substitution) : Substitution :=
  ⟨(first.bindings.mapValues second.apply).orElse second.bindings⟩

def toList (s : Substitution) : List (TypeVar × Ty) :=
  s.bindings.sorted TypeVar.le

/-! ## What each operation does to a binding -/

@[simp] theorem get?_empty (v : TypeVar) : empty.get? v = none := rfl

@[simp] theorem get?_singleton (v w : TypeVar) (t : Ty) :
    (singleton v t).get? w = if v = w then some t else none :=
  Table.get?_singleton v w t

@[simp] theorem get?_insert (s : Substitution) (v w : TypeVar) (t : Ty) :
    (s.insert v t).get? w = if v = w then some t else s.get? w :=
  Table.get?_insert s.bindings v w t

/-- A composition resolves the bindings of the first substitution in the second. -/
theorem get?_compose (first second : Substitution) (v : TypeVar) :
    (first.compose second).get? v = ((first.get? v).map second.apply).or (second.get? v) := by
  simp [compose, get?]

end Substitution

end Rubric
