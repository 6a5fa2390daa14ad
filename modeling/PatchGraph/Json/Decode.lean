import PatchGraph.Json.Reader
import PatchGraph.Text.Quoted

/-!
# Decoding records from JSON

A decoder reads a `Source` in the order of its text, so that the first problem of the text is the one reported, be it a fault of
the text or something the text should not say. A record is a table of fields: its members may come in any order, each at most
once, and members it does not know are passed over. It may also be written as a list of its fields in the table's order.
-/

namespace PatchGraph.Json

/-- What a text says that it should not. -/
inductive Mismatch where
  | missingField (field : String)
  | duplicateField (field : String)
  | unknownVariant (name : String) (allowed : List String)
  | wrongType (found expected : String)
  | outOfRange (value : Int) (expected : String)
  | wrongLength (length : Nat) (expected : String)
  | noVariant (type : String)

/-- Names in the wording of an expectation: two are joined by `or`, more are listed. -/
def Mismatch.alternatives : List String → String
  | [] => "there are no variants"
  | [a] => s!"expected `{a}`"
  | [a, b] => s!"expected `{a}` or `{b}`"
  | names => "expected one of " ++ String.intercalate ", " (names.map fun n => s!"`{n}`")

/-- The wording of a mismatch. -/
def Mismatch.message : Mismatch → String
  | .missingField f => s!"missing field `{f}`"
  | .duplicateField f => s!"duplicate field `{f}`"
  | .unknownVariant n allowed => s!"unknown variant `{n}`, {alternatives allowed}"
  | .wrongType found expected => s!"invalid type: {found}, expected {expected}"
  | .outOfRange value expected => s!"invalid value: integer `{value}`, expected {expected}"
  | .wrongLength length expected => s!"invalid length {length}, expected {expected}"
  | .noVariant type => s!"data did not match any variant of untagged enum {type}"

/-- Why a text could not be decoded. -/
inductive Problem where
  | fault (f : Fault)
  | mismatch (m : Mismatch)

/-- The wording of a problem. -/
def Problem.message : Problem → String
  | .fault f => f.message
  | .mismatch m => m.message

/-- The result of decoding. -/
abbrev Decoded (α : Type) := Except Problem α

/-- Fail if there is a fault. -/
def check : Option Fault → Decoded Unit
  | none => .ok ()
  | some f => .error (.fault f)

/-- The text of a string. -/
def Quoted.decode (q : Quoted) : Decoded String :=
  match q.get with
  | .ok s => .ok s
  | .error f => .error (.fault f)

namespace Source

/-- The problem with a value that is not what was expected: if the value cannot be read at all, that comes first. -/
def unexpected (expected : String) : Source → Problem
  | .missing => .fault .endInValue
  | .broken _ d => .fault d.reading
  | .null => .mismatch (.wrongType "null" expected)
  | .bool b => .mismatch (.wrongType s!"boolean `{b}`" expected)
  | .number n => match n.read with
    | none => .fault .numberOutOfRange
    | some (.int i) => .mismatch (.wrongType s!"integer `{i}`" expected)
    | some (.float x) =>
      let text := String.ofList (Numeral.ofBinary64 x).chars
      .mismatch (.wrongType s!"floating point `{text}`" expected)
  | .string q => match q.get with
    | .error f => .fault f
    | .ok s => .mismatch (.wrongType ("string " ++ Text.quoted s) expected)
  | .array _ _ => .mismatch (.wrongType "sequence" expected)
  | .object _ _ => .mismatch (.wrongType "map" expected)

/-- A string. -/
def decodeString : Source → Decoded String
  | .string q => q.decode
  | s => .error (s.unexpected "a string")

/-- A truth value. -/
def decodeBool : Source → Decoded Bool
  | .bool b => .ok b
  | s => .error (s.unexpected "a boolean")

/-- An integer between two bounds, the upper one left out. -/
def decodeInt (low high : Int) (expected : String) (s : Source) : Decoded Int :=
  match s with
  | .number n => match n.read with
    | some (.int i) => if low ≤ i ∧ i < high then .ok i else .error (.mismatch (.outOfRange i expected))
    | _ => .error (s.unexpected expected)
  | _ => .error (s.unexpected expected)

/-- A signed 64-bit integer. -/
def decodeInt64 : Source → Decoded Int := decodeInt (-0x8000000000000000) 0x8000000000000000 "i64"

/-- An unsigned 64-bit integer. -/
def decodeNat64 (s : Source) : Decoded Nat := (decodeInt 0 0x10000000000000000 "u64" s).map Int.toNat

/-- A double; an integer is widened. -/
def decodeFloat (s : Source) : Decoded Binary64 :=
  match s with
  | .number n => match n.read with
    | some (.int i) => .ok (Binary64.ofInt i)
    | some (.float x) => .ok x
    | none => .error (s.unexpected "f64")
  | _ => .error (s.unexpected "f64")

/-- A value that may be null; what starts as `null` does is read as that. -/
def decodeOption {α : Type} (decode : Source → Decoded α) : Source → Decoded (Option α)
  | .null => .ok none
  | .broken .null d => .error (.fault d.reading)
  | s => (decode s).map some

/-- The items of a list, in order. -/
def decodeItems {α : Type} (decode : Source → Decoded α) : List Source → Decoded (List α)
  | [] => .ok []
  | item :: rest => do
    let a ← decode item
    let more ← decodeItems decode rest
    .ok (a :: more)

/-- A list. -/
def decodeList {α : Type} (decode : Source → Decoded α) : Source → Decoded (List α)
  | .array items ending => do
    let as ← decodeItems decode items
    check ending.readingFault
    .ok as
  | s => .error (s.unexpected "a sequence")

/-! ## Names -/

/-- The value a name stands for. -/
def choose {α : Type} (table : List (String × α)) (name : String) : Decoded α :=
  match table.lookup name with
  | some a => .ok a
  | none => .error (.mismatch (.unknownVariant name (table.map (·.1))))

/-- The fault in what follows the only member of an object that names a choice. -/
def afterChoice (rest : List (Quoted × Source)) (ending : Ending) : Option Fault :=
  if !rest.isEmpty then some .expectedValue
  else match ending with
    | .closed => none
    | .broken ⟨.endInObject, _⟩ => some .endInObject
    | _ => some .expectedValue

/-- One of several names: a string, or an object whose only member has the name as its key and null as its value. Where neither
starts, no value is expected, whatever else stands there. -/
def decodeChoice {α : Type} (table : List (String × α)) : Source → Decoded α
  | .string q => do choose table (← q.decode)
  | .object ((key, value) :: rest) ending => do
    let a ← choose table (← key.decode)
    match value with
    | .null => check (afterChoice rest ending)
    | s => .error (s.unexpected "unit")
    .ok a
  | .object [] (.broken d) => .error (.fault d.reading)
  | .broken .colon d => .error (.fault d.reading)
  | .missing => .error (.fault .endInValue)
  | _ => .error (.fault .expectedValue)

/-- The tag that tells which of several records an object holds. -/
def decodeTag {α : Type} (table : List (String × α)) : Source → Decoded α
  | .string q => do choose table (← q.decode)
  | s => .error (s.unexpected "variant identifier")

end Source

/-! ## Records -/

/-- One field of a record: its name, whether it must be there, and how its value, inside a number of lists and objects, is put
into the record. -/
structure RecordField (α : Type) where
  name : String
  required : Bool
  store : Nat → Source → α → Decoded α

/-- A record being read: its value so far and the names of the fields that were read. -/
structure Draft (α : Type) where
  value : α
  seen : List String

namespace Draft

/-- Read one member into the record. -/
def put {α : Type} (fields : List (RecordField α)) (depth : Nat) (d : Draft α) (name : String) (value : Source) :
    Decoded (Draft α) :=
  match fields.find? (·.name = name) with
  | none => do
    check value.passingFault
    .ok d
  | some f =>
    if d.seen.contains f.name then .error (.mismatch (.duplicateField f.name))
    else do
      let a ← f.store depth value d.value
      .ok ⟨a, f.name :: d.seen⟩

/-- Read members in the order of the text. -/
def putAll {α : Type} (fields : List (RecordField α)) (depth : Nat) : Draft α → List (Quoted × Source) → Decoded (Draft α)
  | d, [] => .ok d
  | d, (key, value) :: rest => do
    let name ← key.decode
    let d ← d.put fields depth name value
    putAll fields depth d rest

/-- The record, unless a required field is missing; the first missing one is named. -/
def finish {α : Type} (fields : List (RecordField α)) (d : Draft α) : Decoded α :=
  match fields.find? (fun f => f.required && !d.seen.contains f.name) with
  | some f => .error (.mismatch (.missingField f.name))
  | none => .ok d.value

end Draft

/-- Read the fields of a record from a list, in order. A field without an item meets the end of the list, which may be broken; if it
is whole, a required field stops the reading with `short`, given how many items there were. The items that no field takes are
returned. -/
def decodePositions {α : Type} (depth : Nat) (short : Nat → Problem) (ending : Ending) :
    List (RecordField α) → Nat → List Source → α → Decoded (α × List Source)
  | [], _, items, a => .ok (a, items)
  | f :: fields, n, [], a => do
    check ending.readingFault
    if f.required then .error (short n) else decodePositions depth short ending fields n [] a
  | f :: fields, n, item :: items, a => do
    let a ← f.store depth item a
    decodePositions depth short ending fields (n + 1) items a

/-- The fault in what follows the fields of a record that is written as a list. -/
def afterFields (rest : List Source) (ending : Ending) : Option Fault :=
  if !rest.isEmpty then some .trailingCharacters
  else match ending with
    | .closed => none
    | .broken ⟨.trailingComma, _⟩ => some .trailingComma
    | .broken ⟨.endInList, _⟩ => some .endInList
    | _ => some .trailingCharacters

/-- The problem with a list that is too short for the fields of a record. -/
def tooShort {α : Type} (expected : String) (fields : List (RecordField α)) (n : Nat) : Problem :=
  let plural := if fields.length = 1 then "" else "s"
  .mismatch (.wrongLength n s!"{expected} with {fields.length} element{plural}")

/-- A record, inside `depth` lists and objects, that starts from the value of one without any fields read. -/
def decodeRecord {α : Type} (name : String) (fields : List (RecordField α)) (blank : α) (depth : Nat) : Source → Decoded α
  | .object members ending => do
    let d ← Draft.putAll fields (depth + 1) ⟨blank, []⟩ members
    check ending.readingFault
    d.finish fields
  | .array items ending => do
    let (a, rest) ← decodePositions (depth + 1) (tooShort s!"struct {name}" fields) ending fields 0 items blank
    check (afterFields rest ending)
    .ok a
  | s => .error (s.unexpected s!"struct {name}")

/-- Decode a whole text: the value first, then nothing but blanks may follow. -/
def Document.decode {α : Type} (decode : Source → Decoded α) (d : Document) : Decoded α := do
  let a ← decode d.value
  if (skipBlanks d.rest).isEmpty then .ok a else .error (.fault .trailingCharacters)

end PatchGraph.Json
