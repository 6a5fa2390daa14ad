import PatchGraph.Graph.Dependency

/-!
# Cycles

Blocks that depend on each other form a component of the dependency graph. A cycle is legal if it can be cut at a block whose output
does not need its input at the same moment: a state boundary.
-/

namespace PatchGraph

/-- A component: its nodes, ascending, whether it is free of cycles, and whether it may stand. -/
structure Component where
  nodes : List Nat
  trivial : Bool
  legal : Bool
  deriving DecidableEq

/-- The components of a dependency graph, each before those it depends on. -/
structure Condensation where
  components : List Component
  deriving DecidableEq

namespace Condensation

/-- The places of the components, each after those it depends on. -/
def order (c : Condensation) : List Nat := (List.range c.components.length).reverse

/-- The place of the component a node is in. -/
def placeOf (c : Condensation) (u : Nat) : Nat := c.components.findIdx fun k => k.nodes.contains u

/-- The component a node is in. -/
def componentOf? (c : Condensation) (u : Nat) : Option Component := c.components[c.placeOf u]?

end Condensation

namespace DependencyGraph

/-- Whether nodes that form a component are free of cycles: there is one, and it does not depend on itself. -/
def isTrivial (g : DependencyGraph) : List Nat → Bool
  | [u] => !g.graph.hasLoop u
  | _ => false

/-- Whether a state boundary is among nodes. -/
def hasBoundary (g : DependencyGraph) (n : Normalized) (r : Registry) (nodes : List Nat) : Bool :=
  (g.blocksOf nodes).any (n.isBoundary r)

/-- The component of nodes that form one. -/
def component (g : DependencyGraph) (n : Normalized) (r : Registry) (nodes : List Nat) : Component where
  nodes := nodes
  trivial := g.isTrivial nodes
  legal := g.isTrivial nodes || g.hasBoundary n r nodes

/-- The components of a dependency graph. -/
def condense (g : DependencyGraph) (n : Normalized) (r : Registry) : Condensation :=
  ⟨g.graph.components.map (g.component n r)⟩

/-- The diagnostic for a cycle that is not legal: it names the first of its blocks and points to the others. -/
def illegalCycle (g : DependencyGraph) (n : Normalized) (nodes : List Nat) : Diagnostic :=
  let blocks := g.blocksOf nodes
  let names := blocks.map fun b => s!"{b.display} '{n.blockId b}'"
  let anchor := match blocks with
    | [] => .patch
    | b :: _ => .block (n.blockId b)
  ((Diagnostic.error .illegalCycle anchor
    ("illegal cycle without a state boundary through " ++ String.intercalate ", " names)).withHint
      "insert a state-boundary block such as Delay on one of the edges").withRelated
        "in cycle" ((blocks.drop 1).map fun b => .block (n.blockId b))

/-- What is wrong with the cycles of a patch. -/
def cycleDiagnostics (g : DependencyGraph) (n : Normalized) (r : Registry) : List Diagnostic :=
  ((g.condense n r).components.filter (!·.legal)).map fun c => g.illegalCycle n c.nodes

end DependencyGraph

end PatchGraph
