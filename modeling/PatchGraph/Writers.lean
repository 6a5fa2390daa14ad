import PatchGraph.Normalized

/-!
# Writers

A writer is anything that gives an input a value: a wire from an output, a bus, or the input's default. The writers of an input are
ordered by kind, then by id, so their order does not depend on how the patch was written.
-/

namespace PatchGraph

/-- A writer of an input. -/
inductive Writer where
  /-- An edge from an output, with its place and id. -/
  | wire (edge : Nat) (edgeId : String) (source : BlockIx) (port : String)
  /-- An edge from a bus, with its place and id. -/
  | bus (edge : Nat) (edgeId : String) (source : BusIx)
  /-- The default of the input. -/
  | fallback (id : String) (constant : ConstId)
  deriving DecidableEq

namespace Writer

/-- The rank of a writer's kind: wires come first, then buses, then the default. -/
def rank : Writer → Nat
  | .wire _ _ _ _ => 0
  | .bus _ _ _ => 1
  | .fallback _ _ => 2

/-- The id of a writer: that of its edge or of the default source. -/
def id : Writer → String
  | .wire _ edgeId _ _ => edgeId
  | .bus _ edgeId _ => edgeId
  | .fallback id _ => id

/-- The place of a writer's edge. -/
def edge? : Writer → Option Nat
  | .wire edge _ _ _ => some edge
  | .bus edge _ _ => some edge
  | .fallback _ _ => none

/-- The order of writers. -/
def order (a b : Writer) : Ordering := (compare a.rank b.rank).then (compare a.id b.id)

end Writer

namespace Normalized

/-- The writer that an edge at a place is, if its source exists. -/
def writerOf? (n : Normalized) (e : Edge) (place : Nat) : Option Writer :=
  match e.source with
  | .port block name => (n.blockIx? block).map fun b => .wire place e.id b name
  | .bus id => (n.busIx? id).map fun b => .bus place e.id b

/-- The default of an input as a writer. -/
def fallbackWriter? (n : Normalized) (b : BlockIx) (port : String) : Option Writer :=
  (n.default? b port).map fun d => .fallback d.id d.constant

/-- The writers of an input, in order. Edges whose source does not exist are left out. -/
def writers (n : Normalized) (b : BlockIx) (port : String) : List Writer :=
  ((n.edgesInto (.port (n.blockId b) port)).filterMap (fun e => n.writerOf? e.1 e.2)
    ++ (n.fallbackWriter? b port).toList).mergeSort fun x y => (x.order y).isLE

/-- The publishers of a bus: the wires into it, in the order of the edges. -/
def publishers (n : Normalized) (bus : String) : List Writer :=
  (n.edgesInto (.bus bus)).filterMap fun (e, i) =>
    match e.source with
    | .port _ _ => n.writerOf? e i
    | .bus _ => none

end Normalized

end PatchGraph
