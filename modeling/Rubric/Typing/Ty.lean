/-!
# Types

The types the checker works with. Functions take one argument at a time, so a function
of several inputs is a chain of arrows. A term can hold lists of terms; each function on
terms therefore has a companion on lists, and equality is decided by comparing the two
terms side by side.
-/

namespace Rubric

/-- A type variable: a number, and the name it was written with if it was written.
Two variables are the same only when both agree. -/
structure TypeVar where
  id : Nat
  name : Option String := none
deriving DecidableEq, Repr, Inhabited

namespace TypeVar

def label (v : TypeVar) : String :=
  v.name.getD ("t" ++ toString v.id)

/-- Order by number, then by name, an unnamed variable first. -/
def le (a b : TypeVar) : Bool :=
  a.id < b.id ||
    (a.id == b.id &&
      match a.name, b.name with
      | none, _ => true
      | some _, none => false
      | some x, some y => decide (x ≤ y))

end TypeVar

/-- Types as unification sees them. -/
inductive Ty where
  | var (v : TypeVar)
  /-- A named type, possibly an alias. -/
  | con (name : String)
  /-- A type applied to arguments. -/
  | app (base : Ty) (args : List Ty)
  | func (input output : Ty)
  | list (element : Ty)
  | tuple (elements : List Ty)
deriving Repr, Inhabited

namespace Ty

/-! ## Equality -/

mutual

def same : Ty → Ty → Bool
  | var v, var w => decide (v = w)
  | con a, con b => decide (a = b)
  | app b as, app c bs => b.same c && sameAll as bs
  | func a b, func c d => a.same c && b.same d
  | list a, list b => a.same b
  | tuple as, tuple bs => sameAll as bs
  | _, _ => false

def sameAll : List Ty → List Ty → Bool
  | [], [] => true
  | a :: as, b :: bs => a.same b && sameAll as bs
  | _, _ => false

end

mutual

theorem same_iff : (a b : Ty) → (a.same b = true ↔ a = b)
  | var v, b => by cases b <;> simp [same]
  | con n, b => by cases b <;> simp [same]
  | app base args, b => by
      cases b with
      | app c bs => simp [same, same_iff base c, sameAll_iff args bs]
      | _ => simp [same]
  | func x y, b => by
      cases b with
      | func c d => simp [same, same_iff x c, same_iff y d]
      | _ => simp [same]
  | list x, b => by
      cases b with
      | list c => simp [same, same_iff x c]
      | _ => simp [same]
  | tuple xs, b => by
      cases b with
      | tuple ys => simp [same, sameAll_iff xs ys]
      | _ => simp [same]

theorem sameAll_iff : (as bs : List Ty) → (sameAll as bs = true ↔ as = bs)
  | [], bs => by cases bs <;> simp [sameAll]
  | a :: as, bs => by
      cases bs with
      | nil => simp [sameAll]
      | cons b bs => simp [sameAll, same_iff a b, sameAll_iff as bs]

end

instance : DecidableEq Ty := fun a b =>
  decidable_of_iff (a.same b = true) (same_iff a b)

/-! ## Named types -/

def bool : Ty := con "Bool"

def char : Ty := con "Char"

def string : Ty := con "String"

/-- The kinds of numbers. They are distinct types; none widens into another. -/
def numericKinds : List String := ["Int", "Integer", "Float", "Double"]

def integralKinds : List String := ["Int", "Integer"]

def curried (inputs : List Ty) (output : Ty) : Ty :=
  inputs.foldr func output

/-! ## Variables and size -/

mutual

def occurs (v : TypeVar) : Ty → Bool
  | var w => decide (v = w)
  | con _ => false
  | app base args => base.occurs v || occursAny v args
  | func input output => input.occurs v || output.occurs v
  | list element => element.occurs v
  | tuple elements => occursAny v elements

def occursAny (v : TypeVar) : List Ty → Bool
  | [] => false
  | t :: rest => t.occurs v || occursAny v rest

end

mutual

def size : Ty → Nat
  | var _ => 1
  | con _ => 1
  | app base args => 1 + base.size + sizeAll args
  | func input output => 1 + input.size + output.size
  | list element => 1 + element.size
  | tuple elements => 1 + sizeAll elements

def sizeAll : List Ty → Nat
  | [] => 0
  | t :: rest => t.size + sizeAll rest

end

mutual

def subst (f : TypeVar → Ty) : Ty → Ty
  | var v => f v
  | con name => con name
  | app base args => app (base.subst f) (substAll f args)
  | func input output => func (input.subst f) (output.subst f)
  | list element => list (element.subst f)
  | tuple elements => tuple (substAll f elements)

def substAll (f : TypeVar → Ty) : List Ty → List Ty
  | [] => []
  | t :: rest => t.subst f :: substAll f rest

end

/-! ## Rendering -/

/-- Whether a type needs parentheses where a single word is expected. -/
def isCompound : Ty → Bool
  | app _ _ | func _ _ => true
  | _ => false

def isFunc : Ty → Bool
  | func _ _ => true
  | _ => false

def parenthesized (needed : Bool) (text : String) : String :=
  if needed then "(" ++ text ++ ")" else text

mutual

/-- The text of a type. Arrows associate to the right, applications stand side by side,
and an application without arguments still keeps the blank after its head. -/
def render : Ty → String
  | var v => v.label
  | con name => name
  | app base args =>
      parenthesized base.isCompound base.render ++ " " ++ " ".intercalate (renderAtoms args)
  | func input output =>
      parenthesized input.isFunc input.render ++ " -> " ++ output.render
  | list element => "[" ++ element.render ++ "]"
  | tuple elements => "(" ++ ", ".intercalate (renderAll elements) ++ ")"

def renderAll : List Ty → List String
  | [] => []
  | t :: rest => t.render :: renderAll rest

def renderAtoms : List Ty → List String
  | [] => []
  | t :: rest => parenthesized t.isCompound t.render :: renderAtoms rest

end

end Ty

end Rubric
