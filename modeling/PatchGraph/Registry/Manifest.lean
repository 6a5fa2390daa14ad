import PatchGraph.Patch.Json
import PatchGraph.Registry.Basic

/-!
# Manifests

A manifest is a list of declarations in a data file. The canonical text of a registry is the manifest of all its declarations, in the
order of their names.
-/

namespace PatchGraph

open Json (Decoded RecordField Source)

/-! ## Writing -/

/-- The kinds of time root under their names. -/
def TimeRootKind.table : List (String × TimeRootKind) := [("finite", .finite), ("cyclic", .cyclic), ("infinite", .infinite)]

/-- The name of a kind of time root. -/
def TimeRootKind.name : TimeRootKind → String
  | .finite => "finite"
  | .cyclic => "cyclic"
  | .infinite => "infinite"

/-- The kinds of transform under their names. -/
def TransformKind.table : List (String × TransformKind) := [("adapter", .adapter), ("lens", .lens)]

/-- The name of a kind of transform. -/
def TransformKind.name : TransformKind → String
  | .adapter => "adapter"
  | .lens => "lens"

/-- The declaration of an input in a data file. -/
def InputDecl.toJson (d : InputDecl) : Json :=
  .obj ([("id", .str d.id), ("type", .str d.type)] ++ Json.member? "default" Value.toJson d.default
    ++ Json.member? "combine" CombinePolicy.toJson d.combine ++ Json.flag? "optional" d.optional)

/-- The declaration of an output in a data file. -/
def OutputDecl.toJson (d : OutputDecl) : Json := .obj [("id", .str d.id), ("type", .str d.type)]

/-- The declaration of a block type in a data file. -/
def BlockDecl.toJson (d : BlockDecl) : Json :=
  .obj ([("type", .str d.type), ("inputs", .arr (d.inputs.map InputDecl.toJson)),
    ("outputs", .arr (d.outputs.map OutputDecl.toJson))] ++ Json.flag? "stateBoundary" d.stateBoundary
    ++ Json.member? "timeRoot" (fun k => .str k.name) d.timeRoot ++ Json.member? "lowering" Json.str d.lowering)

/-- The declaration of a transform in a data file. -/
def TransformDecl.toJson (d : TransformDecl) : Json :=
  .obj ([("id", .str d.id), ("kind", .str d.kind.name), ("effect", d.effect.toJson)]
    ++ Json.member? "compiler" Json.str d.compiler)

/-- A list of declarations in a data file: block types first, then transforms. -/
structure Manifest where
  blocks : List BlockDecl := []
  transforms : List TransformDecl := []
  deriving DecidableEq

/-- The declarations of a manifest, in order. -/
def Manifest.declarations (m : Manifest) : List Declaration := m.blocks.map .block ++ m.transforms.map .transform

/-- A manifest in a data file. -/
def Manifest.toJson (m : Manifest) : Json :=
  .obj [("blocks", .arr (m.blocks.map BlockDecl.toJson)), ("transforms", .arr (m.transforms.map TransformDecl.toJson))]

/-! ## Reading -/

/-- The fields of an input's declaration. -/
def InputDecl.fields : List (RecordField InputDecl) := [
  ⟨"id", true, fun _ s d => s.decodeString.map fun id => { d with id }⟩,
  ⟨"type", true, fun _ s d => s.decodeString.map fun type => { d with type }⟩,
  ⟨"default", false, fun depth s d => (s.decodeOption (Value.decode depth)).map fun default => { d with default }⟩,
  ⟨"combine", false, fun depth s d => (s.decodeOption (CombinePolicy.decode depth)).map fun combine => { d with combine }⟩,
  ⟨"optional", false, fun _ s d => s.decodeBool.map fun optional => { d with optional }⟩]

/-- Decode the declaration of an input. -/
def InputDecl.decode (depth : Nat) : Source → Decoded InputDecl :=
  Json.decodeRecord "InputDecl" fields ⟨"", "", none, none, false⟩ depth

/-- The fields of an output's declaration. -/
def OutputDecl.fields : List (RecordField OutputDecl) := [
  ⟨"id", true, fun _ s d => s.decodeString.map fun id => { d with id }⟩,
  ⟨"type", true, fun _ s d => s.decodeString.map fun type => { d with type }⟩]

/-- Decode the declaration of an output. -/
def OutputDecl.decode (depth : Nat) : Source → Decoded OutputDecl := Json.decodeRecord "OutputDecl" fields ⟨"", ""⟩ depth

/-- The fields of a block type's declaration. -/
def BlockDecl.fields : List (RecordField BlockDecl) := [
  ⟨"type", true, fun _ s d => s.decodeString.map fun type => { d with type }⟩,
  ⟨"inputs", false, fun depth s d => (s.decodeList (InputDecl.decode (depth + 1))).map fun inputs => { d with inputs }⟩,
  ⟨"outputs", false, fun depth s d => (s.decodeList (OutputDecl.decode (depth + 1))).map fun outputs => { d with outputs }⟩,
  ⟨"stateBoundary", false, fun _ s d => s.decodeBool.map fun stateBoundary => { d with stateBoundary }⟩,
  ⟨"timeRoot", false, fun _ s d =>
    (s.decodeOption (Source.decodeChoice TimeRootKind.table)).map fun timeRoot => { d with timeRoot }⟩,
  ⟨"lowering", false, fun _ s d => (s.decodeOption Source.decodeString).map fun lowering => { d with lowering }⟩]

/-- Decode the declaration of a block type. -/
def BlockDecl.decode (depth : Nat) : Source → Decoded BlockDecl :=
  Json.decodeRecord "BlockDecl" fields ⟨"", [], [], false, none, none⟩ depth

/-- The fields of a transform's declaration. -/
def TransformDecl.fields : List (RecordField TransformDecl) := [
  ⟨"id", true, fun _ s d => s.decodeString.map fun id => { d with id }⟩,
  ⟨"kind", true, fun _ s d => (s.decodeChoice TransformKind.table).map fun kind => { d with kind }⟩,
  ⟨"effect", false, fun depth s d => (TypeEffect.decode depth s).map fun effect => { d with effect }⟩,
  ⟨"compiler", false, fun _ s d => (s.decodeOption Source.decodeString).map fun compiler => { d with compiler }⟩]

/-- Decode the declaration of a transform. -/
def TransformDecl.decode (depth : Nat) : Source → Decoded TransformDecl :=
  Json.decodeRecord "TransformDecl" fields ⟨"", .adapter, {}, none⟩ depth

/-- The fields of a manifest. -/
def Manifest.fields : List (RecordField Manifest) := [
  ⟨"blocks", false, fun depth s m => (s.decodeList (BlockDecl.decode (depth + 1))).map fun blocks => { m with blocks }⟩,
  ⟨"transforms", false, fun depth s m =>
    (s.decodeList (TransformDecl.decode (depth + 1))).map fun transforms => { m with transforms }⟩]

/-- Decode a manifest. -/
def Manifest.decode : Source → Decoded Manifest := Json.decodeRecord "Manifest" fields {} 0

/-- The manifest a text holds. -/
def Manifest.ofText (text : String) : Decoded Manifest := (Json.Document.read text).decode decode

namespace Registry

/-- The manifest of all declarations. -/
def manifest (r : Registry) : Manifest where
  blocks := r.blocks.values.map (·.decl)
  transforms := (r.adapters.values ++ r.lenses.values).map (·.decl)

/-- The canonical text of a registry. -/
def canonicalText (r : Registry) : String := r.manifest.toJson.compact

/-- Load a manifest: the registry afterwards, and how many declarations there were or why one was refused. -/
def load (r : Registry) (text origin : String) : Registry × Except RegistryError Nat :=
  match Manifest.ofText text with
  | .error problem => (r, .error (.manifest origin problem))
  | .ok m =>
    match r.declareAll origin m.declarations with
    | (r, some e) => (r, .error e)
    | (r, none) => (r, .ok m.declarations.length)

end Registry

end PatchGraph
