import Rubric.Data.Table
import Rubric.Yaml.Node
import Rubric.Yaml.Token

/-!
# The grammar of nodes

A row of tokens is read into the node of its document. Values may be left out wherever a
token shows that they are, and anchors get their numbers in the order of the text.

Every step either takes a token or goes down one of a few levels of the grammar, so a
multiple of the number of tokens bounds the depth of the recursion.
-/

namespace Rubric

namespace Yaml

/-- What is left to read, the numbers of the anchors so far, and what handles stand for. -/
structure Grammar where
  tokens : List Token
  anchors : Table String Nat := .empty
  handles : Table String Tag := .empty

namespace Grammar

abbrev Part := StateT Grammar Option

def peek : Part (Option Token) := do
  return (← get).tokens.head?

def skip : Part Unit :=
  modify fun grammar => { grammar with tokens := grammar.tokens.drop 1 }

def take (token : Token) : Part Bool := do
  if (← peek) = some token then do
    skip
    return true
  else
    return false

def expect (token : Token) : Part Unit := do
  guard (← take token)

def atOneOf (tokens : List Token) : Part Bool := do
  return (← peek).any fun token => token ∈ tokens

/-! ## Properties -/

/-- The number of a new anchor: how many different names there were before. -/
def number (name : String) : Part Nat := do
  let anchor := (← get).anchors.size
  modify fun grammar => { grammar with anchors := grammar.anchors.insert name anchor }
  return anchor

/-- The tag that is written. Its handle has to be known. -/
def resolve : Tag.Written → Part Tag
  | .full tag => return tag
  | .short handle rest => do
      let some expansion := (← get).handles.get? handle | failure
      return expansion ++ rest

def anchorName : Part (Option String) := do
  match ← peek with
  | some (.anchor name) => do
      skip
      return some name
  | _ => return none

def tag : Part (Option Tag) := do
  match ← peek with
  | some (.tag written) => do
      skip
      return some (← resolve written)
  | _ => return none

/-- The anchor and the tag of a value, in either order. -/
def properties : Part Properties := do
  let (name, tag) ←
    match ← anchorName with
    | some name => pure (some name, ← tag)
    | none => do
        let tag ← tag
        if tag.isSome then pure (← anchorName, tag) else pure (none, none)
  match name with
  | some name => return ⟨some (← number name), tag⟩
  | none => return ⟨none, tag⟩

/-- The properties of a text. The tag without a name says nothing about it. -/
def textProperties (properties : Properties) : Properties :=
  if properties.tag = some Tag.bare then { properties with tag := none } else properties

/-! ## Nodes -/

def afterMember : List Token := [.key, .value, .blockEnd]

mutual

/-- A value. Sequences and mappings without brackets stand in blocks only, and a sequence
may go without an indentation of its own where it is the key or the value of a mapping. -/
def node (block unindented : Bool) : Nat → Part Node
  | 0 => failure
  | steps + 1 => do
      match ← peek with
      | some (.reference name) => do
          skip
          let some anchor := (← get).anchors.get? name | failure
          return .reference anchor
      | _ => do
          let properties ← properties
          match ← peek with
          | some (.scalar plain text) => do
              skip
              return .scalar (textProperties properties) plain text
          | some .bracketOpen => do
              skip
              return .sequence properties (← bracketItems true steps)
          | some .braceOpen => do
              skip
              return .mapping properties (← braceMembers true steps)
          | next =>
              if unindented && next = some .item then
                return .sequence properties (← unindentedItems steps)
              else if block && next = some .sequenceStart then do
                skip
                return .sequence properties (← blockItems steps)
              else if block && next = some .mappingStart then do
                skip
                return .mapping properties (← blockMembers steps)
              else if properties = {} then
                failure
              else
                return .scalar properties true ""

def blockItems : Nat → Part (List Node)
  | 0 => failure
  | steps + 1 => do
      if ← take .item then do
        let first ←
          if ← atOneOf [.item, .blockEnd] then pure .missing else node true false steps
        return first :: (← blockItems steps)
      else do
        expect .blockEnd
        return []

/-- The items of a sequence at the column of the key that it belongs to. -/
def unindentedItems : Nat → Part (List Node)
  | 0 => failure
  | steps + 1 => do
      if ← take .item then do
        let first ←
          if ← atOneOf (.item :: afterMember) then pure .missing else node true false steps
        return first :: (← unindentedItems steps)
      else
        return []

def blockMembers : Nat → Part (List (Node × Node))
  | 0 => failure
  | steps + 1 => do
      if ← take .key then do
        let key ← if ← atOneOf afterMember then pure .missing else node true true steps
        let value ←
          if ← take .value then
            if ← atOneOf afterMember then pure .missing else node true true steps
          else pure .missing
        return (key, value) :: (← blockMembers steps)
      else do
        expect .blockEnd
        return []

/-- The items between brackets up to and including the closing one. A pair with a colon is
a mapping with a single member; if its key is left out, so is the token after it. -/
def bracketItems (first : Bool) : Nat → Part (List Node)
  | 0 => failure
  | steps + 1 => do
      if ← take .bracketClose then
        return []
      else do
        if !first then expect .comma
        if ← take .key then do
          let key ←
            if ← atOneOf [.value, .comma, .bracketClose] then do
              skip
              pure .missing
            else node false false steps
          let value ← valueBefore [.comma, .bracketClose] steps
          return .mapping {} [(key, value)] :: (← bracketItems false steps)
        else if ← take .bracketClose then
          return []
        else do
          let item ← node false false steps
          return item :: (← bracketItems false steps)

def braceMembers (first : Bool) : Nat → Part (List (Node × Node))
  | 0 => failure
  | steps + 1 => do
      if ← take .braceClose then
        return []
      else do
        if !first then expect .comma
        if ← take .key then do
          let key ←
            if ← atOneOf [.value, .comma, .braceClose] then pure .missing
            else node false false steps
          let value ← valueBefore [.comma, .braceClose] steps
          return (key, value) :: (← braceMembers false steps)
        else if ← take .braceClose then
          return []
        else do
          let key ← node false false steps
          return (key, .missing) :: (← braceMembers false steps)

def valueBefore (tokens : List Token) : Nat → Part Node
  | 0 => failure
  | steps + 1 => do
      if ← take .value then
        if ← atOneOf tokens then pure .missing else node false false steps
      else pure .missing

end

/-! ## Documents -/

def isKnownVersion (major minor : Nat) : Bool :=
  major = 1 && (minor = 1 || minor = 2)

/-- Take the directives in front of a document: at most one version, and one meaning for
every handle. -/
def directivesWithin : Nat → Bool → Part Unit
  | 0, _ => failure
  | steps + 1, versionSeen => do
      match ← peek with
      | some (.directive (.version major minor)) => do
          guard (!versionSeen && isKnownVersion major minor)
          skip
          directivesWithin steps true
      | some (.directive (.handle name expansion)) => do
          guard (!(← get).handles.contains name)
          modify fun grammar => { grammar with handles := grammar.handles.insert name expansion }
          skip
          directivesWithin steps versionSeen
      | _ => return

def commonHandles : Table String Tag :=
  .ofList [("!", Tag.bare), ("!!", Tag.core)]

def atDocumentEnd : Part Bool := do
  match ← peek with
  | none => return true
  | some (.directive _) => return true
  | some token => return token ∈ [.documentStart, .documentEnd]

def skipDocumentEnds : Part Unit :=
  modify fun grammar =>
    { grammar with tokens := grammar.tokens.dropWhile fun token => token = .documentEnd }

/-- The node of the only document, or nothing if there is no document. The marks at its
start may be left out if it has no directives. -/
def document : Part (Option Node) := do
  let count := (← get).tokens.length
  let steps := 4 * count + 4
  match ← peek with
  | none => return none
  | some token => do
      let marked := token = .documentStart || token matches .directive _
      if marked then do
        directivesWithin (count + 1) false
        expect .documentStart
      modify fun grammar => { grammar with handles := grammar.handles.orElse commonHandles }
      let node ←
        if marked && (← atDocumentEnd) then pure .missing else node true false steps
      skipDocumentEnds
      guard (← peek).isNone
      return some node

end Grammar

/-- The node of the only document in a row of tokens. Nothing in the result stands for no
document. -/
def Node.ofTokens? (tokens : List Token) : Option (Option Node) :=
  (Grammar.document { tokens }).map Prod.fst

end Yaml

end Rubric
