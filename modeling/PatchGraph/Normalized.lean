import PatchGraph.Program.Builder
import PatchGraph.Registry.Basic

/-!
# Normalized patches

A normalized patch does not depend on the order in which the editor wrote its parts. Blocks and buses are sorted by id, and of those
that share an id only the first is kept. Of the edges only the enabled ones are kept, sorted by sort key and id. Inputs that no
edge leads to, but that have a default, get a source of their own, whose value is a constant.
-/

namespace PatchGraph

/-- The source of an input that no edge leads to: its default as a constant. -/
structure DefaultSource where
  id : String
  block : BlockIx
  port : String
  value : Value
  constant : ConstId
  deriving DecidableEq

/-- A normalized patch. -/
structure Normalized where
  blocks : List Block
  buses : List Bus
  edges : List Edge
  settings : Settings
  defaults : List DefaultSource
  deriving DecidableEq

/-- The order of edges: by sort key, which is zero where it is absent, then by id. -/
def Edge.order (a b : Edge) : Ordering :=
  (compare (a.sortKey.getD 0) (b.sortKey.getD 0)).then (compare a.id b.id)

namespace Normalized

/-- A block by its place. -/
def block? (n : Normalized) (b : BlockIx) : Option Block := n.blocks[b.index]?

/-- A bus by its place. -/
def bus? (n : Normalized) (b : BusIx) : Option Bus := n.buses[b.index]?

/-- The place of a block. -/
def blockIx? (n : Normalized) (id : String) : Option BlockIx := (n.blocks.findIdx? (·.id = id)).map BlockIx.mk

/-- The place of a bus. -/
def busIx? (n : Normalized) (id : String) : Option BusIx := (n.buses.findIdx? (·.id = id)).map BusIx.mk

/-- The blocks with their places. -/
def placedBlocks (n : Normalized) : List (BlockIx × Block) := n.blocks.zipIdx.map fun (b, i) => (⟨i⟩, b)

/-- The buses with their places. -/
def placedBuses (n : Normalized) : List (BusIx × Bus) := n.buses.zipIdx.map fun (b, i) => (⟨i⟩, b)

/-- The id of a block, for messages. -/
def blockId (n : Normalized) (b : BlockIx) : String := ((n.block? b).map (·.id)).getD ""

/-- The declaration of a block's type. -/
def decl? (n : Normalized) (r : Registry) (b : BlockIx) : Option BlockDecl := (n.block? b).bind fun x => r.decl? x.type

/-- Whether cycles may run through a block. -/
def isBoundary (n : Normalized) (r : Registry) (b : BlockIx) : Bool :=
  match n.decl? r b with
  | some d => d.stateBoundary
  | none => false

/-- The default source of an input; where a type declares an input twice, the later one counts. -/
def default? (n : Normalized) (b : BlockIx) (port : String) : Option DefaultSource :=
  n.defaults.reverse.find? fun d => d.block = b ∧ d.port = port

/-- The edges that lead to an end, with their places. -/
def edgesInto (n : Normalized) (target : Endpoint) : List (Edge × Nat) := n.edges.zipIdx.filter fun e => e.1.target = target

/-- A normalized patch as a patch. -/
def toPatch (n : Normalized) : Patch where
  blocks := n.blocks
  edges := n.edges
  buses := n.buses
  settings := n.settings

end Normalized

/-- The table of a list of entries; of two entries with the same name the earlier one stays. -/
def Dict.ofFirsts {α : Type} (entries : List (String × α)) : Dict α :=
  entries.foldl (fun d e => if d.contains e.1 then d else d.insert e.1 e.2) {}

namespace Patch

/-- The blocks sorted by id, the first of each id. -/
def sortedBlocks (p : Patch) : List Block := (Dict.ofFirsts (p.blocks.map fun b => (b.id, b))).values

/-- The buses sorted by id, the first of each id. -/
def sortedBuses (p : Patch) : List Bus := (Dict.ofFirsts (p.buses.map fun b => (b.id, b))).values

/-- The enabled edges in order; edges that are equal in the order stay as they are. -/
def sortedEdges (p : Patch) : List Edge := (p.edges.filter (·.enabled)).mergeSort fun a b => (a.order b).isLE

/-- An input that takes its default. -/
structure OpenInput where
  block : BlockIx
  blockId : String
  port : String
  value : Value

/-- The inputs of a block that no edge leads to and that have a default: the block's own, or else that of its type. -/
def openInputs (r : Registry) (edges : List Edge) (ix : BlockIx) (b : Block) : List OpenInput :=
  match r.decl? b.type with
  | none => []
  | some d => d.inputs.filterMap fun input =>
    if edges.any (·.target = .port b.id input.id) then none
    else ((b.defaults.get? input.id).or input.default).map fun v => ⟨ix, b.id, input.id, v⟩

/-- Make the values of open inputs constants, in order. -/
def internInputs : Pool → List OpenInput → Pool × List DefaultSource
  | pool, [] => (pool, [])
  | pool, i :: rest =>
    let (c, pool) := pool.intern i.value
    let (pool, sources) := internInputs pool rest
    (pool, ⟨s!"{i.blockId}.{i.port}:default", i.block, i.port, i.value, c⟩ :: sources)

/-- Normalize a patch. The constants are those of the default sources. -/
def normalize (p : Patch) (r : Registry) : Normalized × Pool :=
  let blocks := p.sortedBlocks
  let edges := p.sortedEdges
  let inputs := blocks.zipIdx.flatMap fun (b, i) => openInputs r edges ⟨i⟩ b
  let (pool, defaults) := internInputs {} inputs
  ({ blocks, buses := p.sortedBuses, edges, settings := p.settings, defaults }, pool)

end Patch

end PatchGraph
