import Rubric.Yaml.Tag

/-!
# Nodes

The values of a document, with the numbers of their anchors and with their tags. A
reference stands for the node that has its number. Of several nodes with one number the
last to start counts, which is also why the table of anchored nodes is in the order in
which they start.
-/

namespace Rubric

namespace Yaml

/-- What is said of a value in front of it. -/
structure Properties where
  anchor : Option Nat := none
  tag : Option Tag := none
deriving DecidableEq, Repr

/-- A value of a document. -/
inductive Node where
  /-- The node with an anchor. -/
  | reference (anchor : Nat)
  /-- A text, and whether it is plain. -/
  | scalar (properties : Properties) (plain : Bool) (text : String)
  | sequence (properties : Properties) (items : List Node)
  | mapping (properties : Properties) (members : List (Node × Node))

namespace Node

def missing : Node := .scalar {} true ""

def entry (properties : Properties) (node : Node) : List (Nat × Node) :=
  (properties.anchor.map fun anchor => (anchor, node)).toList

mutual

/-- The nodes with anchors, in the order in which they start. -/
def anchored : Node → List (Nat × Node)
  | .reference _ => []
  | .scalar properties plain text => entry properties (.scalar properties plain text)
  | .sequence properties items =>
      entry properties (.sequence properties items) ++ anchoredAll items
  | .mapping properties members =>
      entry properties (.mapping properties members) ++ anchoredMembers members

def anchoredAll : List Node → List (Nat × Node)
  | [] => []
  | node :: rest => anchored node ++ anchoredAll rest

def anchoredMembers : List (Node × Node) → List (Nat × Node)
  | [] => []
  | (key, value) :: rest => anchored key ++ anchored value ++ anchoredMembers rest

end

mutual

/-- The number of marks that a node takes: one for a text or a reference, and two around
everything else. -/
def size : Node → Nat
  | .reference _ => 1
  | .scalar _ _ _ => 1
  | .sequence _ items => sizeAll items + 2
  | .mapping _ members => sizeMembers members + 2

def sizeAll : List Node → Nat
  | [] => 0
  | node :: rest => size node + sizeAll rest

def sizeMembers : List (Node × Node) → Nat
  | [] => 0
  | (key, value) :: rest => size key + size value + sizeMembers rest

end

end Node

end Yaml

end Rubric
