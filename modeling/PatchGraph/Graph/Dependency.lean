import PatchGraph.Diagnostic
import PatchGraph.Graph.Digraph
import PatchGraph.Normalized

/-!
# Dependency graphs

The nodes are the blocks of a patch, then its buses. Each edge of the patch whose ends exist is a link from the node that makes a
value to the node that needs it.
-/

namespace PatchGraph

/-- A node of the dependency graph. -/
inductive Node where
  | block (b : BlockIx)
  | bus (b : BusIx)
  deriving DecidableEq

/-- What a link stands for. -/
inductive LinkKind where
  /-- From a block to a block. -/
  | wire
  /-- From a block to a bus. -/
  | publish
  /-- From a bus to a block. -/
  | listen
  deriving DecidableEq

/-- The name of a kind of link. -/
def LinkKind.name : LinkKind → String
  | .wire => "wire"
  | .publish => "publish"
  | .listen => "listen"

/-- A link between two nodes, which are given by number, and the edge it stands for. -/
structure Link where
  source : Nat
  target : Nat
  kind : LinkKind
  edge : Nat
  edgeId : String
  deriving DecidableEq

/-- The dependency graph of a patch. -/
structure DependencyGraph where
  blockCount : Nat
  busCount : Nat
  links : List Link
  graph : Digraph
  deriving DecidableEq

namespace DependencyGraph

/-- The number of nodes. -/
def size (g : DependencyGraph) : Nat := g.blockCount + g.busCount

/-- The node of a number: blocks come first. -/
def node (g : DependencyGraph) (u : Nat) : Node := if u < g.blockCount then .block ⟨u⟩ else .bus ⟨u - g.blockCount⟩

/-- All nodes in order. -/
def nodes (g : DependencyGraph) : List Node := (List.range g.size).map g.node

/-- The blocks among nodes. -/
def blocksOf (g : DependencyGraph) (us : List Nat) : List BlockIx :=
  us.filterMap fun u => match g.node u with
    | .block b => some b
    | .bus _ => none

/-- The graph with given links between blocks and buses. -/
def ofLinks (blockCount busCount : Nat) (links : List Link) : DependencyGraph :=
  ⟨blockCount, busCount, links, .ofArrows (blockCount + busCount) (links.map fun l => (l.source, l.target))⟩

end DependencyGraph

/-! ## Links of a patch -/

/-- Which side of an edge an end is at: an edge starts at an output and leads to an input. -/
inductive Side where
  | output | input
  deriving DecidableEq

/-- The name of a side. -/
def Side.name : Side → String
  | .output => "output"
  | .input => "input"

/-- Why an end of an edge is no node. -/
inductive EndProblem where
  | missingBlock (block : String)
  | missingPort (side : Side) (block port : String)
  | missingBus (bus : String)
  deriving DecidableEq

/-- The diagnostic of an edge with a problem at an end. -/
def EndProblem.diagnostic (edge : String) : EndProblem → Diagnostic
  | .missingBlock block =>
    (Diagnostic.error .danglingPort (.edge edge) s!"edge '{edge}' references missing block '{block}'").withRelated
      "missing block" [.block block]
  | .missingPort side block port =>
    (Diagnostic.error .danglingPort (.edge edge)
      s!"edge '{edge}' references missing {side.name} port '{block}.{port}'").withRelated "missing port" [.port block port]
  | .missingBus bus =>
    (Diagnostic.error .danglingBus (.edge edge) s!"edge '{edge}' references missing bus '{bus}'").withRelated
      "missing bus" [.bus bus]

/-- Whether a type declares a port. -/
def BlockDecl.hasPort (d : BlockDecl) (side : Side) (port : String) : Bool :=
  match side with
  | .output => (d.outputIndex? port).isSome
  | .input => (d.inputIndex? port).isSome

namespace Normalized

/-- The node that an end of an edge is at. A block of an unknown type is taken to have every port. -/
def endNode (n : Normalized) (r : Registry) (side : Side) : Endpoint → Except EndProblem Nat
  | .port block name =>
    match n.blockIx? block with
    | none => .error (.missingBlock block)
    | some b =>
      match n.decl? r b with
      | none => .ok b.index
      | some d => if d.hasPort side name then .ok b.index else .error (.missingPort side block name)
  | .bus id =>
    match n.busIx? id with
    | none => .error (.missingBus id)
    | some b => .ok (n.blocks.length + b.index)

/-- The kind of link an edge is. -/
def linkKind (e : Edge) : LinkKind :=
  match e.source, e.target with
  | .port _ _, .port _ _ => .wire
  | .port _ _, .bus _ => .publish
  | .bus _, _ => .listen

/-- The link of an edge at a place, if it has one. -/
def link? (n : Normalized) (r : Registry) (e : Edge) (place : Nat) : Option Link :=
  if e.joinsBuses then none
  else match n.endNode r .output e.source, n.endNode r .input e.target with
    | .ok u, .ok v => some ⟨u, v, linkKind e, place, e.id⟩
    | _, _ => none

/-- What is wrong at an end of an edge. -/
def endDiagnostics (n : Normalized) (r : Registry) (edge : String) (side : Side) (e : Endpoint) : List Diagnostic :=
  match n.endNode r side e with
  | .ok _ => []
  | .error p => [p.diagnostic edge]

/-- What is wrong with the ends of an edge. -/
def linkDiagnostics (n : Normalized) (r : Registry) (e : Edge) : List Diagnostic :=
  if e.joinsBuses then
    [(Diagnostic.error .danglingBus (.edge e.id) s!"edge '{e.id}' binds a bus directly to a bus").withHint
      "route the value through a block"]
  else n.endDiagnostics r e.id .output e.source ++ n.endDiagnostics r e.id .input e.target

/-- The dependency graph of a patch. -/
def dependencies (n : Normalized) (r : Registry) : DependencyGraph :=
  .ofLinks n.blocks.length n.buses.length (n.edges.zipIdx.filterMap fun (e, i) => n.link? r e i)

/-- What is wrong with the edges of a patch. -/
def dependencyDiagnostics (n : Normalized) (r : Registry) : List Diagnostic := n.edges.flatMap (n.linkDiagnostics r)

end Normalized

end PatchGraph
