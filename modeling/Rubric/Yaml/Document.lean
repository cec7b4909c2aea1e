import Rubric.Yaml.Node.Grammar
import Rubric.Yaml.Scalar
import Rubric.Yaml.Token.Lexer

/-!
# YAML documents

The node of a document becomes a JSON value. Keys are texts, whatever they look like.
References are replaced by what they stand for, within limits: values are nested only so
deep, which also keeps a node from containing itself, and references may be followed only
so often for the size of the document.
-/

namespace Rubric

namespace Yaml

namespace Node

def maxDepth : Nat := 128

/-- How often references may be followed for every mark of a document. -/
def followsPerMark : Nat := 100

/-- The nodes that references stand for, and how often references may be followed. -/
structure Links where
  nodes : List (Nat × Node)
  limit : Nat

def links (node : Node) : Links :=
  ⟨node.anchored, followsPerMark * node.size⟩

abbrev Following := StateT Nat Option

def follow (links : Links) : Node → Following Node
  | .reference anchor => do
      modify Nat.succ
      guard ((← get) ≤ links.limit)
      let some entry := links.nodes.reverse.find? fun entry => entry.1 = anchor | failure
      return entry.2
  | node => return node

def key (links : Links) (node : Node) : Following String := do
  match ← follow links node with
  | .scalar _ _ text => return text
  | _ => failure

/-- The value of a scalar. A tag decides how its text is read, unless it is known to the
document only, for then there is no such value. -/
def scalarValue (tag : Option Tag) (plain : Bool) (text : String) : Option Json :=
  match tag with
  | none => if plain then Scalar.resolve text else some (.string text)
  | some tag =>
      if tag.isLocal then none
      else if tag = Tag.bool then Scalar.bool? text
      else if tag = Tag.int then Scalar.integer? text.toList
      else if tag = Tag.float then Scalar.number? text
      else if tag = Tag.null then Scalar.null? text
      else if plain && tag.startsLocal then Scalar.resolve text
      else some (.string text)

def allowsTag (properties : Properties) : Bool :=
  !properties.tag.any Tag.isLocal

/-- The value of a node whose sequences and mappings are nested no deeper than the given
number. -/
def valueWithin (links : Links) : Nat → Node → Following Json
  | 0, node => do
      match ← follow links node with
      | .scalar properties plain text => scalarValue properties.tag plain text
      | _ => failure
  | depth + 1, node => do
      match ← follow links node with
      | .scalar properties plain text => scalarValue properties.tag plain text
      | .sequence properties items => do
          guard (allowsTag properties)
          return .array (← items.mapM (valueWithin links depth))
      | .mapping properties members => do
          guard (allowsTag properties)
          return .object
            (← members.mapM fun pair => do
              let key ← key links pair.1
              return (key, ← valueWithin links depth pair.2))
      | .reference _ => failure

def value? (node : Node) : Option Json :=
  (valueWithin node.links maxDepth node 0).map Prod.fst

end Node

/-- The value of a text that holds a single document. A text without one is null. -/
def parse? (text : String) : Option Json := do
  let tokens ← Token.ofString? text
  match ← Node.ofTokens? tokens with
  | some node => node.value?
  | none => some .null

end Yaml

end Rubric
