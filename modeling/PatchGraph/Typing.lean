import PatchGraph.Diagnostic
import PatchGraph.Normalized

/-!
# The types of a patch

Every port and every bus gets the type its text stands for, and every edge whose two ends have types must have a conversion between
them. Each check says what is wrong by itself, so the diagnostics of a patch are those of its blocks, its buses and its edges.
-/

namespace PatchGraph

/-- The types of a block's ports, in the order they are declared. -/
structure PortTypes where
  inputs : List (String × Option ValueType)
  outputs : List (String × Option ValueType)
  deriving DecidableEq

/-- The type of the first port of a name. -/
def portType? (ports : List (String × Option ValueType)) (name : String) : Option ValueType :=
  (ports.find? (·.1 = name)).bind (·.2)

/-- The types of all ports and buses. -/
structure TypeTable where
  blocks : List (Option PortTypes)
  buses : List (Option ValueType)
  deriving DecidableEq

namespace TypeTable

/-- The ports of a block, if its type is known. -/
def ports? (t : TypeTable) (b : BlockIx) : Option PortTypes := t.blocks[b.index]?.join

/-- The type of an input. -/
def inputType? (t : TypeTable) (b : BlockIx) (port : String) : Option ValueType :=
  (t.ports? b).bind fun p => portType? p.inputs port

/-- The type of an output. -/
def outputType? (t : TypeTable) (b : BlockIx) (port : String) : Option ValueType :=
  (t.ports? b).bind fun p => portType? p.outputs port

/-- The type of a bus. -/
def busType? (t : TypeTable) (b : BusIx) : Option ValueType := t.buses[b.index]?.join

end TypeTable

/-- The types along an edge: that of its source, the same after the adapters, that of its target, and how the second becomes the
third. -/
structure EdgeTyping where
  source : ValueType
  adapted : ValueType
  target : ValueType
  conversion : Conversion
  deriving DecidableEq

/-- A patch with its types. -/
structure Typed where
  table : TypeTable
  edges : List (Option EdgeTyping)
  deriving DecidableEq

/-- The part of a patch that an end of an edge is. -/
def Endpoint.locator : Endpoint → Locator
  | .port block name => .port block name
  | .bus id => .bus id

namespace Typing

/-! ## Blocks and buses -/

/-- The types of a declaration's ports. -/
def portTypes (d : BlockDecl) : PortTypes where
  inputs := d.inputs.map fun i => (i.id, ValueType.parse? i.type)
  outputs := d.outputs.map fun o => (o.id, ValueType.parse? o.type)

/-- What is wrong with a type text. -/
def typeDiagnostics (locator : Locator) (text : String) : List Diagnostic :=
  match ValueType.parse text with
  | .ok _ => []
  | .error e => [.error .unreadableType locator (e.message text)]

/-- What is wrong with a block. -/
def blockDiagnostics (r : Registry) (b : Block) : List Diagnostic :=
  match r.decl? b.type with
  | none => [(Diagnostic.error .unknownBlockType (.block b.id) s!"unknown block type '{b.type}'").withHint
      "register the block type or load its manifest with --registry"]
  | some d =>
    (d.inputs.flatMap fun i => typeDiagnostics (.port b.id i.id) i.type)
      ++ d.outputs.flatMap fun o => typeDiagnostics (.port b.id o.id) o.type

/-- What is wrong with a bus whose type can be read. -/
def busTypeDiagnostics (id : String) (t : ValueType) : List Diagnostic :=
  (if t.isBusEligible then []
    else [(Diagnostic.error .busIneligible (.bus id) s!"type {t.display} cannot be carried on a bus").withHint
      "buses carry signals, events, or fields of float/int/boolean/color"])
  ++ match reservedBusType? id with
    | none => []
    | some required =>
      if t.sameShape required then []
      else [.error .reservedBus (.bus id) s!"reserved bus '{id}' must have type {required.display}, found {t.display}"]

/-- What is wrong with a bus. -/
def busDiagnostics (b : Bus) : List Diagnostic :=
  match ValueType.parse b.type with
  | .error e => [.error .unreadableType (.bus b.id) (e.message b.type)]
  | .ok t => busTypeDiagnostics b.id t

/-- The types of all ports and buses. -/
def table (n : Normalized) (r : Registry) : TypeTable where
  blocks := n.blocks.map fun b => (r.decl? b.type).map portTypes
  buses := n.buses.map fun b => ValueType.parse? b.type

/-! ## Edges -/

/-- The type an edge starts from. -/
def sourceType? (n : Normalized) (t : TypeTable) : Endpoint → Option ValueType
  | .port block name => (n.blockIx? block).bind fun b => t.outputType? b name
  | .bus id => (n.busIx? id).bind t.busType?

/-- The type an edge leads to. -/
def targetType? (n : Normalized) (t : TypeTable) : Endpoint → Option ValueType
  | .port block name => (n.blockIx? block).bind fun b => t.inputType? b name
  | .bus id => (n.busIx? id).bind t.busType?

/-- The types of the two ends of an edge, if both have one; an edge that joins two buses is not looked at. -/
def endTypes? (n : Normalized) (t : TypeTable) (e : Edge) : Option (ValueType × ValueType) :=
  if e.joinsBuses then none
  else (sourceType? n t e.source).bind fun s => (targetType? n t e.target).map fun u => (s, u)

/-- What is wrong with the steps of an edge. -/
def stepDiagnostics (r : Registry) (e : Edge) : List Diagnostic :=
  let unknown (kind : TransformKind) (word : String) (steps : List Step) : List Diagnostic :=
    steps.filterMap fun s =>
      if (r.transform? kind s.id).isSome then none
      else some (.error .unknownTransform (.edge e.id) s!"unknown {word} '{s.id}'")
  unknown .adapter "adapter" e.adapters ++ unknown .lens "lens" e.lenses

/-- The type after adapters, as they are declared. -/
def adaptedType (r : Registry) (t : ValueType) (adapters : List Step) : ValueType :=
  adapters.foldl (fun t s => match r.transform? .adapter s.id with
    | some entry => entry.decl.effect.apply t
    | none => t) t

/-- The diagnostic for an edge that joins types without a conversion. -/
def noConversion (e : Edge) (source adapted target : ValueType) : Diagnostic :=
  let d := ((Diagnostic.error .noConversion (.edge e.id)
    s!"no conversion path from {adapted.display} to {target.display} on edge '{e.id}'").withRelated
      "source" [e.source.locator]).withRelated "target" [e.target.locator]
  if adapted = source then d else d.withCause s!"adapters turn {source.display} into {adapted.display}" none

/-- The types along an edge. -/
def edgeTyping? (n : Normalized) (r : Registry) (t : TypeTable) (e : Edge) : Option EdgeTyping :=
  match endTypes? n t e with
  | none => none
  | some (source, target) =>
    if (stepDiagnostics r e).isEmpty then
      let adapted := adaptedType r source e.adapters
      (adapted.conversion? target).map fun c => ⟨source, adapted, target, c⟩
    else none

/-- What is wrong with an edge. -/
def edgeDiagnostics (n : Normalized) (r : Registry) (t : TypeTable) (e : Edge) : List Diagnostic :=
  match endTypes? n t e with
  | none => []
  | some (source, target) =>
    let unknown := stepDiagnostics r e
    if unknown.isEmpty then
      let adapted := adaptedType r source e.adapters
      match adapted.conversion? target with
      | some _ => []
      | none => [noConversion e source adapted target]
    else unknown

end Typing

/-- The patch with its types. -/
def Normalized.typed (n : Normalized) (r : Registry) : Typed :=
  let table := Typing.table n r
  ⟨table, n.edges.map (Typing.edgeTyping? n r table)⟩

/-- What is wrong with the types of a patch. -/
def Normalized.typeDiagnostics (n : Normalized) (r : Registry) : List Diagnostic :=
  let table := Typing.table n r
  n.blocks.flatMap (Typing.blockDiagnostics r) ++ n.buses.flatMap Typing.busDiagnostics
    ++ n.edges.flatMap (Typing.edgeDiagnostics n r table)

end PatchGraph
