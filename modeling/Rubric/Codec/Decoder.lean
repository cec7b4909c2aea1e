import Rubric.Codec.Error
import Rubric.Json.Reader

/-!
# Decoders

A decoder reads a value of some type from JSON. Records are described field by field with
`Fields`, choices case by case with `variants`, and both follow the same rules for every
type: unknown keys are ignored, fields may be left out when they have a default, a record
can be written as the row of its fields, and of several faulty fields the one whose key
comes first is reported.
-/

namespace Rubric

/-- How strictly JSON is read. -/
structure Reading where
  /-- Whether the payload of a variant with fields may be written as a row. -/
  rows : Bool
  /-- How many containers may still be entered. -/
  remaining : Nat

abbrev Decoder (α : Type) := Reading → Json → Except DecodeError α

namespace Decoder

variable {α β : Type}

def enter (inside : Reading → Except DecodeError α) : Reading → Except DecodeError α :=
  fun reading =>
    match reading.remaining with
    | 0 => .error .tooDeep
    | rest + 1 => inside { reading with remaining := rest }

def map (f : α → β) (decoder : Decoder α) : Decoder β :=
  fun reading json => (decoder reading json).map f

/-! ## Leaves -/

def string : Decoder String
  | _, .string s => .ok s
  | _, json => .error (.invalidType json "a string")

def boolean : Decoder Bool
  | _, .bool b => .ok b
  | _, json => .error (.invalidType json "a boolean")

/-- The double nearest to a whole number of 64 bits. -/
def nearest (n : Int) : Float :=
  if n < 0 then -n.natAbs.toUInt64.toFloat else n.natAbs.toUInt64.toFloat

def number : Decoder Float
  | _, .real x => .ok x
  | _, .integer n => .ok (nearest n)
  | _, json => .error (.invalidType json "f64")

def natural : Decoder Nat
  | _, .integer n =>
      if 0 ≤ n then .ok n.toNat else .error (.invalidValue (.integer n) "usize")
  | _, json => .error (.invalidType json "usize")

def nullable (decoder : Decoder α) : Decoder (Option α)
  | _, .null => .ok none
  | reading, json => (decoder reading json).map some

def sequence (decoder : Decoder α) : Decoder (List α)
  | reading, .array elements =>
      enter (fun inside => elements.mapM (decoder inside)) reading
  | _, json => .error (.invalidType json "a sequence")

def members (decoder : Decoder α) : Decoder (List (String × α))
  | reading, .object entries =>
      enter
        (fun inside => entries.mapM fun (key, json) =>
          (decoder inside json).map fun value => (key, value))
        reading
  | _, json => .error (.invalidType json "a map")

end Decoder

/-! ## Records -/

/-- The outcome of looking for fields in an object: the fault whose key comes first, the
first field that is missing, and the value when there is neither. -/
structure Gathered (α : Type) where
  fault : Option (String × DecodeError)
  missing : Option String
  value : Option α

namespace Gathered

variable {α β : Type}

/-- The fault whose key comes first. -/
def firstFault : Option (String × DecodeError) → Option (String × DecodeError) →
    Option (String × DecodeError)
  | none, second => second
  | first, none => first
  | some (a, x), some (b, y) => if b < a then some (b, y) else some (a, x)

def both (f : Gathered (α → β)) (a : Gathered α) : Gathered β :=
  ⟨firstFault f.fault a.fault, f.missing.or a.missing, f.value.bind fun f => a.value.map f⟩

def finish (gathered : Gathered α) : Except DecodeError α :=
  match gathered.fault, gathered.missing, gathered.value with
  | some (_, error), _, _ => .error error
  | none, some name, _ => .error (.missingField name)
  | none, none, some value => .ok value
  | none, none, none => .error .tooDeep

end Gathered

/-- Why a row is not the row of a record's fields. -/
inductive RowError where
  /-- The row ends before the field at this position. -/
  | short (position : Nat)
  | faulty (error : DecodeError)

/-- The fields of a record, in declaration order. They can be looked for in an object or
taken from the front of a row. -/
structure Fields (α : Type) where
  keys : List String
  fromObject : Reading → List (String × Json) → Gathered α
  fromRow : Reading → Nat → List Json → Except RowError (α × List Json)

namespace Fields

variable {α β : Type}

def ofValue (value : α) : Fields α :=
  ⟨[], fun _ _ => ⟨none, none, some value⟩, fun _ _ row => .ok (value, row)⟩

def andThen (f : Fields (α → β)) (a : Fields α) : Fields β where
  keys := f.keys ++ a.keys
  fromObject := fun reading entries =>
    (f.fromObject reading entries).both (a.fromObject reading entries)
  fromRow := fun reading position row => do
    let (f', row) ← f.fromRow reading position row
    let (a', row) ← a.fromRow reading (position + f.keys.length) row
    .ok (f' a', row)

instance : Applicative Fields where
  pure := ofValue
  seq f a := f.andThen (a ())

/-- A single field. Without a default it may not be left out. -/
def field (key : String) (default? : Option α) (decoder : Decoder α) : Fields α where
  keys := [key]
  fromObject := fun reading entries =>
    match Json.find? entries key with
    | some json =>
        match decoder reading json with
        | .ok value => ⟨none, none, some value⟩
        | .error error => ⟨some (key, error), none, none⟩
    | none =>
        match default? with
        | some value => ⟨none, none, some value⟩
        | none => ⟨none, some key, none⟩
  fromRow := fun reading position row =>
    match row with
    | json :: row =>
        match decoder reading json with
        | .ok value => .ok (value, row)
        | .error error => .error (.faulty error)
    | [] =>
        match default? with
        | some value => .ok (value, [])
        | none => .error (.short position)

def required (key : String) (decoder : Decoder α) : Fields α :=
  field key none decoder

def defaulted (key : String) (default : α) (decoder : Decoder α) : Fields α :=
  field key (some default) decoder

def optional (key : String) (decoder : Decoder α) : Fields (Option α) :=
  field key (some none) decoder.nullable

/-- The record in an object. A known key may stand there once only. -/
def inObject (fields : Fields α) (entries : List (String × Json)) (reading : Reading) :
    Except DecodeError α :=
  match fields.keys.find? fun key => 1 < entries.countP fun entry => entry.1 == key with
  | some key => .error (.repeatedField key)
  | none => (fields.fromObject reading entries).finish

def sized (name : String) (size : Nat) : String :=
  "struct " ++ name ++ " with " ++ toString size ++ (if size = 1 then " element" else " elements")

def inRow (fields : Fields α) (name : String) (row : List Json) (reading : Reading) :
    Except DecodeError α :=
  match fields.fromRow reading 0 row with
  | .ok (value, []) => .ok value
  | .ok (_, _ :: _) => .error (.invalidLength row.length "fewer elements in array")
  | .error (.short position) => .error (.invalidLength position (sized name fields.keys.length))
  | .error (.faulty error) => .error error

end Fields

namespace Decoder

variable {α : Type}

def record (name : String) (fields : Fields α) : Decoder α
  | reading, .object entries => enter (fields.inObject entries) reading
  | reading, .array row => enter (fields.inRow name row) reading
  | _, json => .error (.invalidType json ("struct " ++ name))

end Decoder

/-! ## Choices -/

/-- What comes with the name of a case. -/
inductive Payload (α : Type) where
  /-- Nothing. -/
  | bare (value : α)
  /-- One value. -/
  | single (decoder : Decoder α)
  /-- Fields of its own. -/
  | fields (fields : Fields α)

namespace Payload

variable {α : Type}

def ofName : Payload α → Except DecodeError α
  | bare value => .ok value
  | single _ => .error (.bareVariant "newtype variant")
  | fields _ => .error (.bareVariant "struct variant")

def decode : Payload α → Decoder α
  | bare value, _, .null => .ok value
  | bare _, _, json => .error (.invalidType json "unit")
  | single decoder, reading, json => decoder reading json
  | fields fs, reading, .object entries => Decoder.enter (fs.inObject entries) reading
  | fields fs, reading, .array row =>
      if reading.rows then
        Decoder.enter (fs.inRow "" row) reading
      else
        .error (.invalidType (.array row) "struct variant")
  | fields _, _, json => .error (.invalidType json "struct variant")

end Payload

namespace Decoder

variable {α : Type}

def caseOf (cases : List (String × Payload α)) (name : String) :
    Except DecodeError (Payload α) :=
  match cases.find? fun entry => entry.1 == name with
  | some (_, payload) => .ok payload
  | none => .error (.unknownVariant name (cases.map Prod.fst))

/-- One of several named cases: a bare name, or an object with the name as its only
key. -/
def variants (cases : List (String × Payload α)) : Decoder α
  | _, .string name => do
      let payload ← caseOf cases name
      payload.ofName
  | reading, .object [(name, json)] =>
      enter
        (fun inside => do
          let payload ← caseOf cases name
          payload.decode inside json)
        reading
  | _, .object entries => .error (.invalidValue (.object entries) "map with a single key")
  | _, json => .error (.invalidType json "string or map")

/-! ## Whole values and texts -/

/-- Decode a value. Rows stand for records only, and nesting is not limited. -/
def ofJson (decoder : Decoder α) (json : Json) : Except DecodeError α :=
  decoder ⟨false, json.depth⟩ json

/-- How deep the containers of a text may be nested. -/
def textDepth : Nat := 127

/-- Decode a text. Rows may stand for the fields of a case too. -/
def ofText? (decoder : Decoder α) (text : String) : Option α :=
  match Json.parse? text with
  | none => none
  | some json => (decoder ⟨true, textDepth⟩ json).toOption

end Decoder

end Rubric
