import PatchGraph.Graph.Cycles

/-!
# Drawings of dependency graphs

The text of a drawing for a graph layout program. Blocks are boxes and buses are ellipses; each cycle is a cluster, in red if it is
not legal.
-/

namespace PatchGraph.Dot

/-- Characters with others in place of one of them. -/
def replaceChar (old : Char) (new cs : List Char) : List Char := cs.flatMap fun c => if c = old then new else [c]

/-- A label between double quotes: a backslash is put before each backslash, and then one before each quote. -/
def escape (label : String) : String :=
  String.ofList (replaceChar '"' ['\\', '"'] (replaceChar '\\' ['\\', '\\'] label.toList))

/-- The line of a node. -/
def nodeLine (g : DependencyGraph) (n : Normalized) (indent : String) (u : Nat) : String :=
  match g.node u with
  | .block b =>
    let (id, type) := match n.block? b with
      | some x => (x.id, x.type)
      | none => ("", "")
    s!"{indent}n{u} [label=\"{escape id}\\n{escape type}\", shape=box];\n"
  | .bus b =>
    let id := ((n.bus? b).map (·.id)).getD ""
    s!"{indent}n{u} [label=\"{escape id}\", shape=ellipse, style=dashed];\n"

/-- The cluster of a cycle, at its place among the components. -/
def cluster (g : DependencyGraph) (n : Normalized) (place : Nat) (c : Component) : String :=
  let (label, color) := if c.legal then ("cycle", "gray50") else ("illegal cycle", "red")
  s!"\n    subgraph cluster_scc{place} \x7b\n        label=\"{label}\";\n        style=rounded;\n        color={color};\n"
    ++ String.join (c.nodes.map (nodeLine g n "        ")) ++ "    \x7d\n"

/-- The line of a link. -/
def linkLine (k : Condensation) (l : Link) : String :=
  let style := match l.kind with
    | .wire => "solid"
    | .publish | .listen => "dashed"
  let illegal := k.placeOf l.source = k.placeOf l.target ∧ (k.componentOf? l.source).all (·.legal) = false
  let color := if illegal then ", color=red, penwidth=2" else ""
  s!"    n{l.source} -> n{l.target} [label=\"{escape l.edgeId}\", style={style}{color}];\n"

/-- The drawing of a dependency graph. -/
def drawing (g : DependencyGraph) (k : Condensation) (n : Normalized) : String :=
  let cycles := k.components.zipIdx.filter fun c => !c.1.trivial
  let clustered := cycles.flatMap fun c => c.1.nodes
  let free := (List.range g.size).filter fun u => !clustered.contains u
  "digraph patch \x7b\n    rankdir=LR;\n    node [fontname=\"Helvetica\", fontsize=10];\n"
    ++ "    edge [fontname=\"Helvetica\", fontsize=9];\n"
    ++ String.join (cycles.map fun (c, i) => cluster g n i c)
    ++ "\n" ++ String.join (free.map (nodeLine g n "    "))
    ++ "\n" ++ String.join (g.links.map (linkLine k)) ++ "\x7d\n"

end PatchGraph.Dot
