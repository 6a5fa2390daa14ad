import PatchGraph.Compile.Pipeline
import PatchGraph.Patch.Json

/-!
# Looking into a compilation

What the stages of a compilation made, as data that tools can show.
-/

namespace PatchGraph

/-- The text of a type as data. -/
def ValueType.textJson (t : ValueType) : Json := .str t.display

/-- A default source as data. -/
def DefaultSource.toJson (d : DefaultSource) : Json :=
  .obj [("id", .str d.id), ("block", .str d.block.display), ("port", .str d.port), ("value", d.value.toJson),
    ("constant", .str d.constant.display)]

/-- An edge in one line. -/
def Edge.summary (e : Edge) : String := s!"{e.id}: {e.source.display} -> {e.target.display}"

/-- A normalized patch as data: ids and the places they are found at, edges, defaults, and the canonical text. -/
def Normalized.toJson (n : Normalized) : Json :=
  .obj [("blocks", .arr (n.blocks.map fun b => .str b.id)), ("buses", .arr (n.buses.map fun b => .str b.id)),
    ("blockIndex", .arr (n.blocks.map fun b => Json.optional (fun i => .str i.display) (n.blockIx? b.id))),
    ("busIndex", .arr (n.buses.map fun b => Json.optional (fun i => .str i.display) (n.busIx? b.id))),
    ("edges", .arr (n.edges.map fun e => .str e.summary)), ("defaults", .arr (n.defaults.map DefaultSource.toJson)),
    ("canonical", .str n.toPatch.canonicalText)]

/-- Ports with their types as data. -/
def portsJson (ports : List (String × Option ValueType)) : Json :=
  .arr (ports.map fun (name, t) => .arr [.str name, Json.optional ValueType.textJson t])

/-- The ports of a block as data. -/
def PortTypes.toJson (p : PortTypes) : Json := .obj [("inputs", portsJson p.inputs), ("outputs", portsJson p.outputs)]

/-- The types along an edge as data. -/
def EdgeTyping.toJson (e : EdgeTyping) : Json :=
  .obj [("from", e.source.textJson), ("adapted", e.adapted.textJson), ("to", e.target.textJson),
    ("conversion", .str e.conversion.name)]

/-- The types of a patch as data. -/
def Typed.toJson (t : Typed) : Json :=
  .obj [("blocks", .arr (t.table.blocks.map (Json.optional PortTypes.toJson))),
    ("buses", .arr (t.table.buses.map (Json.optional ValueType.textJson))),
    ("edges", .arr (t.edges.map (Json.optional EdgeTyping.toJson)))]

/-- The time of a patch as data, with which signals of time there are. -/
def Time.toJson (t : Time) : Json :=
  .obj [("root", .str t.root.display), ("model", t.model.toJson),
    ("signals", .obj [("modelTime", .bool true), ("phase", .bool t.model.isCyclic), ("wrap", .bool t.model.isCyclic)])]

/-- A node as data. -/
def Node.toJson : Node → Json
  | .block b => .obj [("kind", .str "blockEval"), ("index", .nat b.index)]
  | .bus b => .obj [("kind", .str "busValue"), ("index", .nat b.index)]

/-- A link as data. -/
def Link.toJson (l : Link) : Json :=
  .obj [("from", .nat l.source), ("to", .nat l.target), ("kind", .str l.kind.name), ("edge", .nat l.edge),
    ("edge_id", .str l.edgeId)]

/-- Numbers as data. -/
def natsJson (ns : List Nat) : Json := .arr (ns.map Json.nat)

/-- A dependency graph as data. -/
def DependencyGraph.toJson (g : DependencyGraph) : Json :=
  .obj [("nodes", .arr (g.nodes.map Node.toJson)), ("edges", .arr (g.links.map Link.toJson)),
    ("successors", .arr ((List.range g.size).map fun u => natsJson (g.graph.successors u))),
    ("selfLoops", natsJson ((List.range g.size).filter g.graph.hasLoop))]

/-- A component as data. -/
def Component.toJson (c : Component) : Json :=
  .obj [("nodes", natsJson c.nodes), ("trivial", .bool c.trivial), ("legal", .bool c.legal)]

/-- The components of a graph of a size as data. -/
def Condensation.toJson (size : Nat) (c : Condensation) : Json :=
  .obj [("sccs", .arr (c.components.map Component.toJson)), ("order", natsJson c.order),
    ("nodeScc", natsJson ((List.range size).map c.placeOf))]

/-- What became of a block as data. -/
def BlockOutcome.toJson (o : BlockOutcome) : Json :=
  .obj [("attempted", .bool o.attempted), ("inputs", valuesJson o.inputs), ("outputs", Json.optional valuesJson o.outputs?)]

/-- A slot reserved for an output as data. -/
def ForwardSlot.toJson (f : ForwardSlot) : Json :=
  .obj [("slot", .str f.slot.display), ("block", .str f.block.display), ("port", .str f.port)]

/-- Lowered blocks as data. -/
def Lowered.toJson (l : Lowered) : Json :=
  .obj [("outcomes", .arr (l.outcomes.map BlockOutcome.toJson)), ("forwardSlots", .arr (l.forwards.map ForwardSlot.toJson)),
    ("nodeOrder", natsJson l.order)]

/-- What became of a bus as data. -/
def BusOutcome.toJson (b : BusOutcome) : Json :=
  .obj [("publishers", .nat b.publishers), ("effective", .nat b.effective), ("failed", .bool b.failed),
    ("value", Json.optional ValueRef.toJson b.value)]

/-- The findings of the verification as data. -/
def Certificate.toJson (c : Certificate) : Json := .arr (c.obligations.map fun (name, holds) => .arr [.str name, .bool holds])

/-- What the stages made as data; null is what is not there. -/
def Artifacts.toJson (a : Artifacts) : Json :=
  let size := (a.graph.map (·.size)).getD 0
  .obj [("normalized", Json.optional Normalized.toJson a.normalized),
    ("constsLen", Json.optional (fun p => .nat p.size) a.consts),
    ("typed", Json.optional Typed.toJson a.typed),
    ("time", Json.optional Time.toJson a.time),
    ("graph", Json.optional DependencyGraph.toJson a.graph),
    ("validated", Json.optional (Condensation.toJson size) a.cycles),
    ("busSlots", Json.optional (fun slots => .arr (slots.map (Json.optional fun s => .nat s.index))) a.busSlots),
    ("lowered", Json.optional Lowered.toJson a.lowered),
    ("buses", Json.optional (fun buses => .arr (buses.map BusOutcome.toJson)) a.buses),
    ("linked", Json.optional Linked.toJson a.linked),
    ("cert", Json.optional Certificate.toJson a.certificate)]

end PatchGraph
