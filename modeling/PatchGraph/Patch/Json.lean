import PatchGraph.Patch.Basic

/-!
# Patches in data files

The canonical text of a patch is its compact JSON, in which every table is sorted by name. Reading it gives the patch back.
-/

namespace PatchGraph

open Json (Decoded RecordField Quoted Source)

/-! ## Writing -/

/-- A table of values in a data file. -/
def Dict.toJson (d : Dict Value) : Json := .obj (d.entries.map fun (name, v) => (name, v.toJson))

/-- The member of a table of values, left out when it is empty. -/
def Dict.member? (key : String) (d : Dict Value) : List (String × Json) :=
  if d.isEmpty then [] else [(key, d.toJson)]

/-- A block in a data file. -/
def Block.toJson (b : Block) : Json :=
  .obj ([("id", .str b.id), ("type", .str b.type)] ++ b.params.member? "params" ++ b.defaults.member? "defaults")

/-- A bus in a data file. -/
def Bus.toJson (b : Bus) : Json :=
  .obj ([("id", .str b.id), ("type", .str b.type), ("combine", .str b.combine.name)]
    ++ Json.member? "default" Value.toJson b.default)

/-- An end of an edge in a data file. -/
def Endpoint.toJson : Endpoint → Json
  | .port block name => .obj [("kind", .str "port"), ("block", .str block), ("port", .str name)]
  | .bus id => .obj [("kind", .str "bus"), ("bus", .str id)]

/-- A step in a data file. -/
def Step.toJson (s : Step) : Json := .obj (("id", .str s.id) :: s.params.member? "params")

/-- An edge in a data file. -/
def Edge.toJson (e : Edge) : Json :=
  .obj ([("id", .str e.id), ("from", e.source.toJson), ("to", e.target.toJson), ("enabled", .bool e.enabled)]
    ++ Json.member? "sortKey" Json.int e.sortKey
    ++ Json.members? "adapters" (e.adapters.map Step.toJson) ++ Json.members? "lenses" (e.lenses.map Step.toJson))

/-- Settings in a data file. -/
def Settings.toJson (s : Settings) : Json := .obj [("seed", .nat s.seed), ("speed", .float s.speed)]

/-- A patch in a data file. -/
def Patch.toJson (p : Patch) : Json :=
  .obj [("blocks", .arr (p.blocks.map Block.toJson)), ("edges", .arr (p.edges.map Edge.toJson)),
    ("buses", .arr (p.buses.map Bus.toJson)), ("settings", p.settings.toJson)]

/-- The canonical text of a patch. -/
def Patch.canonicalText (p : Patch) : String := p.toJson.compact

/-! ## Reading -/

/-- Put the members of an object into a table of values; of two with the same key the later one stays. -/
def Dict.decodeMembers (depth : Nat) : Dict Value → List (Quoted × Source) → Decoded (Dict Value)
  | d, [] => .ok d
  | d, (key, value) :: rest => do
    let name ← key.decode
    let v ← Value.decode depth value
    decodeMembers depth (d.insert name v) rest

/-- Decode a table of values. -/
def Dict.decode (depth : Nat) : Source → Decoded (Dict Value)
  | .object members ending => do
    let d ← decodeMembers (depth + 1) {} members
    Json.check ending.readingFault
    .ok d
  | s => .error (s.unexpected "a map")

/-- The fields of a block. -/
def Block.fields : List (RecordField Block) := [
  ⟨"id", true, fun _ s b => s.decodeString.map fun id => { b with id }⟩,
  ⟨"type", true, fun _ s b => s.decodeString.map fun type => { b with type }⟩,
  ⟨"params", false, fun depth s b => (Dict.decode depth s).map fun params => { b with params }⟩,
  ⟨"defaults", false, fun depth s b => (Dict.decode depth s).map fun defaults => { b with defaults }⟩]

/-- Decode a block. -/
def Block.decode (depth : Nat) : Source → Decoded Block := Json.decodeRecord "Block" fields ⟨"", "", {}, {}⟩ depth

/-- The fields of a bus. -/
def Bus.fields : List (RecordField Bus) := [
  ⟨"id", true, fun _ s b => s.decodeString.map fun id => { b with id }⟩,
  ⟨"type", true, fun _ s b => s.decodeString.map fun type => { b with type }⟩,
  ⟨"combine", false, fun _ s b => (CombineMode.decode s).map fun combine => { b with combine }⟩,
  ⟨"default", false, fun depth s b => (s.decodeOption (Value.decode depth)).map fun default => { b with default }⟩]

/-- Decode a bus. -/
def Bus.decode (depth : Nat) : Source → Decoded Bus := Json.decodeRecord "Bus" fields ⟨"", "", .last, none⟩ depth

namespace Endpoint

/-- Which kind of end an object describes. -/
inductive Kind where
  | port | bus
  deriving DecidableEq

/-- The kinds under their names. -/
def Kind.table : List (String × Kind) := [("port", .port), ("bus", .bus)]

/-- The fields that describe a port: its block and its name. -/
def portFields : List (RecordField (String × String)) := [
  ⟨"block", true, fun _ s p => s.decodeString.map fun block => (block, p.2)⟩,
  ⟨"port", true, fun _ s p => s.decodeString.map fun name => (p.1, name)⟩]

/-- The fields that describe a bus: its name. -/
def busFields : List (RecordField String) := [⟨"bus", true, fun _ s _ => s.decodeString⟩]

/-- Hold the members of an object, except that the kind is read at once. -/
def holdMembers (depth : Nat) : Option Kind → List (Quoted × Source) → Decoded (Option Kind × List (Quoted × Source))
  | kind, [] => .ok (kind, [])
  | kind, (key, value) :: rest => do
    let name ← key.decode
    if name = "kind" then
      if kind.isSome then .error (.mismatch (.duplicateField "kind"))
      else do
        let k ← value.decodeTag Kind.table
        holdMembers depth (some k) rest
    else do
      Json.check (value.holdingFault depth)
      let (kind, held) ← holdMembers depth kind rest
      .ok (kind, (key, value) :: held)

/-- Hold the items of a list. -/
def holdItems (depth : Nat) : List Source → Decoded Unit
  | [] => .ok ()
  | item :: rest => do
    Json.check (item.holdingFault depth)
    holdItems depth rest

/-- Read an end of a known kind from held members. -/
def ofMembers (depth : Nat) (members : List (Quoted × Source)) : Kind → Decoded Endpoint
  | .port => do
    let d ← Json.Draft.putAll portFields depth ⟨("", ""), []⟩ members
    let (block, name) ← d.finish portFields
    .ok (.port block name)
  | .bus => do
    let d ← Json.Draft.putAll busFields depth ⟨"", []⟩ members
    let id ← d.finish busFields
    .ok (.bus id)

/-- Read the fields of a kind from held items, which must be exactly as many. -/
def exactly {α : Type} (depth : Nat) (name : String) (fields : List (RecordField α)) (items : List Source) (blank : α) :
    Decoded α := do
  let short := Json.tooShort s!"struct variant Endpoint::{name}" fields
  let (a, rest) ← Json.decodePositions depth short .closed fields 0 items blank
  let plural := if fields.length = 1 then "" else "s"
  if rest.isEmpty then .ok a
  else .error (.mismatch (.wrongLength items.length s!"{fields.length} element{plural} in sequence"))

/-- Read an end of a known kind from held items. -/
def ofItems (depth : Nat) (items : List Source) : Kind → Decoded Endpoint
  | .port => (exactly depth "Port" portFields items ("", "")).map fun (block, name) => .port block name
  | .bus => (exactly depth "Bus" busFields items "").map .bus

/-- Decode an end of an edge: an object that names its kind, or a list that starts with it. What describes the end is held as a whole
before it is read, since the kind may come last. -/
def decode (depth : Nat) : Source → Decoded Endpoint
  | .object members ending => do
    let (kind, held) ← holdMembers (depth + 1) none members
    Json.check ending.readingFault
    match kind with
    | none => .error (.mismatch (.missingField "kind"))
    | some k => ofMembers (depth + 1) held k
  | .array [] ending => do
    Json.check ending.readingFault
    .error (.mismatch (.missingField "kind"))
  | .array (first :: rest) ending => do
    let kind ← first.decodeTag Kind.table
    holdItems (depth + 1) rest
    Json.check ending.readingFault
    ofItems (depth + 1) rest kind
  | s => .error (s.unexpected "internally tagged enum Endpoint")

end Endpoint

/-- The fields of a step. -/
def Step.fields : List (RecordField Step) := [
  ⟨"id", true, fun _ s t => s.decodeString.map fun id => { t with id }⟩,
  ⟨"params", false, fun depth s t => (Dict.decode depth s).map fun params => { t with params }⟩]

/-- Decode a step. -/
def Step.decode (depth : Nat) : Source → Decoded Step := Json.decodeRecord "TransformStep" fields ⟨"", {}⟩ depth

/-- The fields of an edge. -/
def Edge.fields : List (RecordField Edge) := [
  ⟨"id", true, fun _ s e => s.decodeString.map fun id => { e with id }⟩,
  ⟨"from", true, fun depth s e => (Endpoint.decode depth s).map fun source => { e with source }⟩,
  ⟨"to", true, fun depth s e => (Endpoint.decode depth s).map fun target => { e with target }⟩,
  ⟨"enabled", false, fun _ s e => s.decodeBool.map fun enabled => { e with enabled }⟩,
  ⟨"sortKey", false, fun _ s e => (s.decodeOption Source.decodeInt64).map fun sortKey => { e with sortKey }⟩,
  ⟨"adapters", false, fun depth s e => (s.decodeList (Step.decode (depth + 1))).map fun adapters => { e with adapters }⟩,
  ⟨"lenses", false, fun depth s e => (s.decodeList (Step.decode (depth + 1))).map fun lenses => { e with lenses }⟩]

/-- Decode an edge. -/
def Edge.decode (depth : Nat) : Source → Decoded Edge :=
  Json.decodeRecord "Edge" fields ⟨"", default, default, true, none, [], []⟩ depth

/-- The fields of settings. -/
def Settings.fields : List (RecordField Settings) := [
  ⟨"seed", false, fun _ s t => s.decodeNat64.map fun seed => { t with seed }⟩,
  ⟨"speed", false, fun _ s t => s.decodeFloat.map fun speed => { t with speed }⟩]

/-- Decode settings. -/
def Settings.decode (depth : Nat) : Source → Decoded Settings := Json.decodeRecord "PatchSettings" fields {} depth

/-- The fields of a patch. -/
def Patch.fields : List (RecordField Patch) := [
  ⟨"blocks", false, fun depth s p => (s.decodeList (Block.decode (depth + 1))).map fun blocks => { p with blocks }⟩,
  ⟨"edges", false, fun depth s p => (s.decodeList (Edge.decode (depth + 1))).map fun edges => { p with edges }⟩,
  ⟨"buses", false, fun depth s p => (s.decodeList (Bus.decode (depth + 1))).map fun buses => { p with buses }⟩,
  ⟨"settings", false, fun depth s p => (Settings.decode depth s).map fun settings => { p with settings }⟩]

/-- Decode a patch. -/
def Patch.decode : Source → Decoded Patch := Json.decodeRecord "Patch" fields {} 0

/-- The patch a text holds. -/
def Patch.ofText (text : String) : Decoded Patch := (Json.Document.read text).decode decode

end PatchGraph
