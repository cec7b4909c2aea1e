import Rubric.Data.Keyed

/-!
# JSON values

Objects keep their members in the order and multiplicity of the text; `canonical` puts
them into key order with the last member of a key winning. Whole numbers of 64 bits are
kept apart from all other numbers, which are doubles.
-/

namespace Rubric

/-- A JSON value. -/
inductive Json where
  | null
  | bool (value : Bool)
  /-- A whole number that fits into 64 bits, signed or unsigned. -/
  | integer (value : Int)
  /-- Any other number. -/
  | real (value : Float)
  | string (value : String)
  | array (elements : List Json)
  | object (members : List (String × Json))
  /-- A literal that is well formed and has no value: a number beyond the range of
  doubles, or a text with half of a surrogate pair in it or in one of its keys. -/
  | unusable
deriving Repr, Inhabited

namespace Json

/-- The last value of a key in a list of members. -/
def find? (members : List (String × Json)) (key : String) : Option Json :=
  (members.reverse.find? fun member => member.1 == key).map Prod.snd

def get? : Json → String → Option Json
  | object members, key => find? members key
  | _, _ => none

def string? : Json → Option String
  | string value => some value
  | _ => none

def array? : Json → Option (List Json)
  | array elements => some elements
  | _ => none

mutual

/-- The same value with every object in key order, one member for each key. -/
def canonical : Json → Json
  | array elements => array (canonicalAll elements)
  | object members => object (canonicalMembers members [])
  | other => other

def canonicalAll : List Json → List Json
  | [] => []
  | element :: rest => element.canonical :: canonicalAll rest

def canonicalMembers : List (String × Json) → List (String × Json) → List (String × Json)
  | [], done => done
  | (key, value) :: rest, done => canonicalMembers rest (Keyed.put key value.canonical done)

end

mutual

def depth : Json → Nat
  | array elements => depthAll elements + 1
  | object members => depthMembers members + 1
  | _ => 0

def depthAll : List Json → Nat
  | [] => 0
  | element :: rest => max element.depth (depthAll rest)

def depthMembers : List (String × Json) → Nat
  | [] => 0
  | (_, value) :: rest => max value.depth (depthMembers rest)

end

def ofNat (n : Nat) : Json := integer n

/-- A double as a JSON value. Infinities and what is no number have no JSON of their own and
become null. -/
def ofFloat (x : Float) : Json :=
  if x.isFinite then real x else null

def ofOption {α : Type} (f : α → Json) : Option α → Json
  | none => null
  | some a => f a

end Json

end Rubric
