import Rubric.Yaml.Text.Block
import Rubric.Yaml.Text.Plain
import Rubric.Yaml.Text.Quoted
import Rubric.Yaml.Token

/-!
# Reading tokens

Whether a value is a key shows only at the colon behind it. The lexer therefore remembers
where a key may have started, one such place for every open bracket, and puts the tokens
for the key, and for the mapping that it opens, in front of it once the colon is found.
A key has to be on one line and may not be too long.

Outside brackets the column of a token decides which blocks it ends.
-/

namespace Rubric

namespace Yaml

open Source

/-- A place where a key may have started: how many tokens came before it, where it
stands, and whether nothing else can stand there. -/
structure KeyStart where
  tokensBefore : Nat
  place : Place
  required : Bool

namespace KeyStart

def maxLength : Nat := 1024

/-- Whether the key would have to end before the given place. -/
def isStale (start : KeyStart) (place : Place) : Bool :=
  start.place.line < place.line || start.place.offset + maxLength < place.offset

end KeyStart

/-- How far a text has been read into tokens. -/
structure Lexer where
  source : Source
  /-- The tokens so far, latest first. -/
  tokens : List Token := []
  /-- The columns of the open blocks, innermost first. -/
  columns : List Nat := []
  /-- Where a key may have started outside all brackets. -/
  blockKey : Option KeyStart := none
  /-- Where a key may have started inside every open bracket, innermost first. -/
  flowKeys : List (Option KeyStart) := []
  /-- Whether a key may start at the next token. -/
  keyAllowed : Bool := true

namespace Lexer

def inFlow (lexer : Lexer) : Bool :=
  !lexer.flowKeys.isEmpty

def indent (lexer : Lexer) : Nat :=
  (lexer.columns.head?.map Nat.succ).getD 0

def emit (token : Token) (lexer : Lexer) : Lexer :=
  { lexer with tokens := token :: lexer.tokens }

def emitAt (before : Nat) (token : Token) (lexer : Lexer) : Lexer :=
  let later := lexer.tokens.length - before
  { lexer with tokens := lexer.tokens.take later ++ token :: lexer.tokens.drop later }

/-! ## Blocks -/

/-- End the innermost blocks as far as their columns satisfy a test. Blocks do not end
inside brackets. -/
def endBlocks (test : Nat → Bool) (lexer : Lexer) : Lexer :=
  if lexer.inFlow then lexer
  else
    let ended := lexer.columns.takeWhile test
    { lexer with
      tokens := List.replicate ended.length .blockEnd ++ lexer.tokens
      columns := lexer.columns.dropWhile test }

/-- Start a block at a column after the given number of tokens, unless it is open
already. -/
def startBlock (column before : Nat) (token : Token) (lexer : Lexer) : Lexer :=
  if lexer.inFlow || lexer.columns.head?.any (column ≤ ·) then lexer
  else { lexer with columns := column :: lexer.columns }.emitAt before token

/-! ## Keys -/

def key? (lexer : Lexer) : Option KeyStart :=
  match lexer.flowKeys with
  | [] => lexer.blockKey
  | start :: _ => start

def setKey (start : Option KeyStart) (lexer : Lexer) : Lexer :=
  match lexer.flowKeys with
  | [] => { lexer with blockKey := start }
  | _ :: rest => { lexer with flowKeys := start :: rest }

/-- Give up the key that may have started, unless it is required. -/
def dropKey (lexer : Lexer) : Option Lexer :=
  if lexer.key?.any KeyStart.required then none else some (lexer.setKey none)

/-- Remember that a key may start at a place. It is required at the column of the
innermost block. -/
def markKey (place : Place) (lexer : Lexer) : Option Lexer :=
  if lexer.keyAllowed then do
    let required := !lexer.inFlow && lexer.columns.head? = some place.column
    some ((← lexer.dropKey).setKey (some ⟨lexer.tokens.length, place, required⟩))
  else
    some lexer

def unlessStale (place : Place) : Option KeyStart → Option (Option KeyStart)
  | none => some none
  | some start =>
      if start.isStale place then if start.required then none else some none
      else some (some start)

def dropStale (place : Place) (lexer : Lexer) : Option Lexer := do
  let blockKey ← unlessStale place lexer.blockKey
  let flowKeys ← lexer.flowKeys.mapM (unlessStale place)
  some { lexer with blockKey, flowKeys }

/-! ## Kinds of tokens -/

def endDocument (lexer : Lexer) : Option Lexer := do
  let lexer ← (lexer.endBlocks fun _ => true).dropKey
  some { lexer with keyAllowed := false }

def readDirective (rest : Source) (lexer : Lexer) : Option Lexer := do
  let lexer ← lexer.endDocument
  let (directive, rest) ← Directive.read rest
  some { lexer.emit (.directive directive) with source := rest }

def readMarker (token : Token) (rest : Source) (lexer : Lexer) : Option Lexer := do
  let lexer ← lexer.endDocument
  some { lexer.emit token with source := rest }

def readOpen (token : Token) (place : Place) (rest : Source) (lexer : Lexer) : Option Lexer := do
  let lexer ← lexer.markKey place
  some { lexer.emit token with
    source := rest, flowKeys := none :: lexer.flowKeys, keyAllowed := true }

def readClose (token : Token) (rest : Source) (lexer : Lexer) : Option Lexer := do
  let lexer ← lexer.dropKey
  some { lexer.emit token with
    source := rest, flowKeys := lexer.flowKeys.tail, keyAllowed := false }

def readComma (rest : Source) (lexer : Lexer) : Option Lexer := do
  let lexer ← lexer.dropKey
  some { lexer.emit .comma with source := rest, keyAllowed := true }

def readItem (place : Place) (rest : Source) (lexer : Lexer) : Option Lexer := do
  guard (lexer.inFlow || lexer.keyAllowed)
  let lexer := lexer.startBlock place.column lexer.tokens.length .sequenceStart
  let lexer ← lexer.dropKey
  some { lexer.emit .item with source := rest, keyAllowed := true }

def readKey (place : Place) (rest : Source) (lexer : Lexer) : Option Lexer := do
  guard (lexer.inFlow || lexer.keyAllowed)
  let lexer := lexer.startBlock place.column lexer.tokens.length .mappingStart
  let lexer ← lexer.dropKey
  some { lexer.emit .key with source := rest, keyAllowed := !lexer.inFlow }

/-- A colon in front of a value. If a key has started, it ends here. -/
def readValue (place : Place) (rest : Source) (lexer : Lexer) : Option Lexer :=
  match lexer.key? with
  | some start =>
      let lexer := lexer.emitAt start.tokensBefore .key
      let lexer := lexer.startBlock start.place.column start.tokensBefore .mappingStart
      some { (lexer.setKey none).emit .value with source := rest, keyAllowed := false }
  | none => do
      guard (lexer.inFlow || lexer.keyAllowed)
      let lexer := lexer.startBlock place.column lexer.tokens.length .mappingStart
      some { lexer.emit .value with source := rest, keyAllowed := !lexer.inFlow }

def endsName (c : Char) : Bool :=
  c ∈ ['?', ':', ',', ']', '\x7d', '%', '@', '`']

def readName (token : String → Token) (place : Place) (rest : Source) (lexer : Lexer) :
    Option Lexer := do
  let lexer ← lexer.markKey place
  let (name, rest) := word isWord rest
  guard (!name.isEmpty && (atBlank rest || (peek? rest).any endsName))
  some { lexer.emit (token (String.ofList name)) with source := rest, keyAllowed := false }

def readTag (place : Place) (lexer : Lexer) : Option Lexer := do
  let lexer ← lexer.markKey place
  let (tag, rest) ← Tag.read lexer.inFlow lexer.source
  some { lexer.emit (.tag tag) with source := rest, keyAllowed := false }

def readBlock (folded : Bool) (rest : Source) (lexer : Lexer) : Option Lexer := do
  let lexer ← lexer.dropKey
  let reading ← Text.block folded lexer.columns.head? rest
  some { lexer.emit (.scalar false (String.ofList reading.text)) with
    source := reading.rest, keyAllowed := true }

def readQuoted (quote : Char) (place : Place) (rest : Source) (lexer : Lexer) : Option Lexer := do
  let lexer ← lexer.markKey place
  let reading ← Text.quoted quote rest
  some { lexer.emit (.scalar false (String.ofList reading.text)) with
    source := reading.rest, keyAllowed := false }

/-- A plain text. After a line end a key may start. -/
def readPlain (place : Place) (lexer : Lexer) : Option Lexer := do
  let lexer ← lexer.markKey place
  let reading ← Text.plain lexer.inFlow lexer.indent lexer.source
  some { lexer.emit (.scalar true (String.ofList reading.text)) with
    source := reading.rest, keyAllowed := reading.lineEnded }

/-! ## Reading on -/

def readToken (c : Char) (place : Place) (rest : Source) (lexer : Lexer) : Option Lexer :=
  let flow := lexer.inFlow
  if c = '%' ∧ place.column = 0 then lexer.readDirective rest
  else if let some rest := marker? '-' lexer.source then lexer.readMarker .documentStart rest
  else if let some rest := marker? '.' lexer.source then lexer.readMarker .documentEnd rest
  else if c = '[' then lexer.readOpen .bracketOpen place rest
  else if c = '\x7b' then lexer.readOpen .braceOpen place rest
  else if c = ']' then lexer.readClose .bracketClose rest
  else if c = '\x7d' then lexer.readClose .braceClose rest
  else if c = ',' then lexer.readComma rest
  else if c = '-' && atBlank rest then lexer.readItem place rest
  else if c = '?' && (flow || atBlank rest) then lexer.readKey place rest
  else if c = ':' && (flow || atBlank rest) then lexer.readValue place rest
  else if c = '*' then lexer.readName .reference place rest
  else if c = '&' then lexer.readName .anchor place rest
  else if c = '!' then lexer.readTag place
  else if (c = '|' || c = '>') && !flow then lexer.readBlock (c = '>') rest
  else if c = '\'' || c = '"' then lexer.readQuoted c place rest
  else if Text.startsPlain flow lexer.source then lexer.readPlain place
  else none

/-- All tokens in order. Every step but the last uses up a character. -/
def readWithin : Nat → Lexer → Option (List Token)
  | 0, _ => none
  | steps + 1, lexer => do
      let (keyAllowed, source) := skipSpacing lexer.inFlow lexer.keyAllowed false lexer.source
      let lexer := { lexer with keyAllowed, source }
      match source with
      | [] => do
          let lexer ← (lexer.endBlocks fun _ => true).dropKey
          some lexer.tokens.reverse
      | (c, place) :: rest => do
          let lexer ← lexer.dropStale place
          let lexer ← (lexer.endBlocks fun column => place.column < column).readToken c place rest
          readWithin steps lexer

end Lexer

def Token.ofString? (text : String) : Option (List Token) := do
  let source ← Source.ofString text
  Lexer.readWithin (source.length + 1) { source }

end Yaml

end Rubric
