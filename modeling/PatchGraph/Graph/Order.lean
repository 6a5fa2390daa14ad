import PatchGraph.Graph.Cycles

/-!
# The order of evaluation

Components come in the order of their dependencies. Inside a cycle the blocks come first. Each is kept with the number of wires that
lead to it, where wires into state boundaries do not count and parallel wires count one by one. A block is placed once no wire is left,
and the wires that start from it are taken away. Blocks that keep a wire come last, then the buses.
-/

namespace PatchGraph

/-- Nodes that are not placed yet, each with the number of wires that still lead to it. -/
abbrev Pending := List (Nat × Nat)

namespace Pending

/-- Some nodes with all wires that lead to them. -/
def ofWires (wires : List (Nat × Nat)) (nodes : List Nat) : Pending := nodes.map fun u => (u, wires.countP (·.2 = u))

/-- The nodes, without their numbers. -/
def nodes (p : Pending) : List Nat := p.map (·.1)

/-- Take away one wire that leads to a node. -/
def release (p : Pending) (u : Nat) : Pending := p.map fun (v, count) => (v, if v = u then count - 1 else count)

/-- Place a node: the wires that start from it are taken away one by one. -/
def place (wires : List (Nat × Nat)) (p : Pending) (u : Nat) : Pending :=
  ((wires.filter (·.1 = u)).map (·.2)).foldl release (p.eraseP (·.1 = u))

/-- To take away a wire leaves the nodes. -/
theorem nodes_release (p : Pending) (u : Nat) : (p.release u).nodes = p.nodes := by
  simp [nodes, release, List.map_map, Function.comp_def]

/-- To take away wires leaves the nodes. -/
theorem nodes_foldl_release (p : Pending) (targets : List Nat) : (targets.foldl release p).nodes = p.nodes := by
  induction targets generalizing p with
  | nil => rfl
  | cons u rest ih => rw [List.foldl_cons, ih, nodes_release]

/-- To place a node takes it from those that are left. -/
theorem nodes_place (wires : List (Nat × Nat)) (p : Pending) (u : Nat) : (p.place wires u).nodes = p.nodes.erase u := by
  rw [place, nodes_foldl_release, nodes, nodes, List.erase_eq_eraseP', List.eraseP_map]
  rfl

/-- Place the first node that no wire leads to, again and again; the nodes that keep a wire follow as they are. -/
def order (wires : List (Nat × Nat)) (p : Pending) : List Nat :=
  match _h : p.find? (·.2 = 0) with
  | none => p.nodes
  | some (u, _) => u :: order wires (p.place wires u)
  termination_by p.nodes.length
  decreasing_by
    have hu : u ∈ p.nodes := List.mem_map_of_mem (List.mem_of_find?_eq_some _h)
    rw [nodes_place, List.length_erase_of_mem hu]
    exact Nat.sub_lt (List.length_pos_of_mem hu) Nat.one_pos

end Pending

/-- The order of nodes along wires. -/
def wireOrder (wires : List (Nat × Nat)) (nodes : List Nat) : List Nat := (Pending.ofWires wires nodes).order wires

namespace DependencyGraph

/-- Whether a node is a block. -/
def isBlock (g : DependencyGraph) (u : Nat) : Bool := u < g.blockCount

/-- Whether a node is a state boundary. -/
def isBoundary (g : DependencyGraph) (n : Normalized) (r : Registry) (u : Nat) : Bool :=
  match g.node u with
  | .block b => n.isBoundary r b
  | .bus _ => false

/-- The wires that count between blocks: those that do not lead to a state boundary. -/
def countedWires (g : DependencyGraph) (n : Normalized) (r : Registry) (blocks : List Nat) : List (Nat × Nat) :=
  (g.links.filter fun l => l.kind = .wire && blocks.contains l.source && blocks.contains l.target
    && !g.isBoundary n r l.target).map fun l => (l.source, l.target)

/-- The order inside a cycle. -/
def cycleOrder (g : DependencyGraph) (n : Normalized) (r : Registry) (nodes : List Nat) : List Nat :=
  let blocks := nodes.filter g.isBlock
  wireOrder (g.countedWires n r blocks) blocks ++ nodes.filter fun u => !g.isBlock u

/-- The order of all nodes. -/
def evaluationOrder (g : DependencyGraph) (n : Normalized) (r : Registry) (c : Condensation) : List Nat :=
  c.components.reverse.flatMap fun k => if k.trivial then k.nodes else g.cycleOrder n r k.nodes

end DependencyGraph

end PatchGraph
