import Mathlib.Data.List.Flatten
import PatchGraph.Proofs.Graph.DotReader
import PatchGraph.Proofs.Graph.Links

/-!
# Drawings are read back

Reading the text of a drawing gives back one statement for each node, one for each link, and one cluster for each cycle
(`ofText_drawing`). The labels are the ids and types of the patch, whatever characters they hold.
-/

namespace PatchGraph

/-- What a node of the dependency graph is labelled with: the id and the type of a block, or the id of a bus. -/
def Normalized.label (n : Normalized) (u : Nat) : List String :=
  match n.blocks[u]? with
  | some b => [b.id, b.type]
  | none => (n.buses[u - n.blocks.length]?).toList.map (·.id)

namespace Dot

/-- The name of a node. -/
def nodeName (u : Nat) : String := s!"n{u}"

/-- The name of the cluster for the component at a place. -/
def clusterName (place : Nat) : String := s!"cluster_scc{place}"

/-- Names that differ in a number differ. -/
theorem append_repr_injective (s : String) : Function.Injective fun u : Nat => s ++ u.repr := by
  intro u v h
  have hlist := congrArg String.toList h
  simp only [String.toList_append] at hlist
  have hvalue := congrArg (fun ds => Nat.ofDigitChars 10 ds 0) (List.append_cancel_left hlist)
  simpa [Nat.toList_repr] using hvalue

theorem nodeName_injective : Function.Injective nodeName := append_repr_injective "n"

theorem clusterName_injective : Function.Injective clusterName := append_repr_injective "cluster_scc"

/-- A number is written with digits. -/
theorem isDigit_of_mem_repr {u : Nat} {c : Char} (h : c ∈ u.repr.toList) : c.isDigit = true := by
  rw [Nat.toList_repr] at h
  exact Nat.isDigit_of_mem_toDigits (by decide) (by decide) h

/-- A number may stand in a word. -/
theorem isWordPart_of_mem_repr {u : Nat} : ∀ c ∈ u.repr.toList, isWordPart c = true := by
  intro c hc
  simp [isWordPart, Char.isAlphanum, isDigit_of_mem_repr hc]

/-- The name of a node is no keyword: only digits come after its first letter. -/
theorem nodeName_not_mem_keywords (u : Nat) : nodeName u ∉ keywords := by
  have hkeywords : ∀ w ∈ keywords, w.toList.tail.all Char.isDigit = false := by decide
  have hdigits : (nodeName u).toList.tail.all Char.isDigit = true := by
    rw [nodeName, String.toList_append]
    exact List.all_eq_true.2 fun c hc => isDigit_of_mem_repr hc
  intro hmem
  cases (hkeywords _ hmem).symm.trans hdigits

/-! ## Texts that hold statements -/

/-- A text that is read as one statement. -/
def Holds (text : String) (s : Statement) : Prop :=
  scan .between text.toList = some (.between, s.tokens ++ [.mark ';']) ∧ s.IsWritable

/-- Reading a text takes one outline to another. -/
def Reads (text : String) (o o' : Outline) : Prop :=
  ∃ ts, scan .between text.toList = some (.between, ts) ∧ o.read ts = some o'

/-- Texts that hold statements hold them one after the other. -/
theorem Reads.append {a b : String} {o o' o'' : Outline} (ha : Reads a o o') (hb : Reads b o' o'') : Reads (a ++ b) o o'' := by
  obtain ⟨ts, hts, hread⟩ := ha
  obtain ⟨us, hus, hread'⟩ := hb
  refine ⟨ts ++ us, ?_, ?_⟩
  · rw [String.toList_append]
    exact scan_append hts hus
  · rw [Outline.read_append, hread, Option.bind_some, hread']

/-- A text that holds a statement adds it, to a cluster or to the drawing. -/
theorem Holds.reads {text : String} {s : Statement} (h : Holds text s) (d : Sketch) (c : Option Cluster) :
    Reads text ⟨d, c, [], false⟩ (Outline.add ⟨d, c, [], false⟩ [s]) :=
  ⟨_, h.1, Outline.read_statement d c h.2⟩

/-- Texts that hold statements are read one after the other. -/
theorem reads_statements {α : Type} {text : α → String} {s : α → Statement} {xs : List α} (h : ∀ x ∈ xs, Holds (text x) (s x))
    (d : Sketch) (c : Option Cluster) :
    Reads (String.join (xs.map text)) ⟨d, c, [], false⟩ (Outline.add ⟨d, c, [], false⟩ (xs.map s)) := by
  induction xs generalizing d c with
  | nil => cases c <;> exact ⟨[], rfl, by simp [Outline.read, Outline.add]⟩
  | cons x xs ih =>
    rw [List.forall_mem_cons] at h
    rw [List.map_cons, String.join_cons, List.map_cons, ← List.singleton_append]
    have hfirst := h.1.reads d c
    cases c <;> simpa [Outline.add] using hfirst.append (ih h.2 _ _)

/-! ## Lines -/

/-- The statement of a node. -/
def nodeStatement (n : Normalized) (u : Nat) : Statement :=
  .node (nodeName u) (("label", .label (n.label u)) ::
    if u < n.blocks.length then [("shape", .word "box")] else [("shape", .word "ellipse"), ("style", .word "dashed")])

/-- The number of a node ends its name. -/
theorem scan_repr (u : Nat) : scan (.word ['n']) u.repr.toList = some (.word (nodeName u).toList, []) := by
  rw [nodeName, String.toList_append]
  exact scan_word isWordPart_of_mem_repr ['n']

/-- The name of a node, after an indent, up to its label. -/
theorem scan_node_head {indent : String} (hindent : scan .between indent.toList = some (.between, [])) (u : Nat) :
    scan .between (indent.toList ++ "n".toList ++ u.repr.toList ++ " [label=\"".toList)
      = some (.label [] [], [.word (nodeName u), .mark '[', .word "label", .mark '=']) := by
  have hname : scan .between "n".toList = some (.word ['n'], []) := rfl
  have hopen : scan (.word (nodeName u).toList) " [label=\"".toList
      = some (.label [] [], [.word (String.ofList (nodeName u).toList), .mark '[', .word "label", .mark '=']) := rfl
  rw [String.ofList_toList] at hopen
  exact scan_append (scan_append (scan_append hindent hname) (scan_repr u)) hopen

/-- The statement of a node can be written, whatever characters its label holds. -/
theorem isWritable_nodeStatement (n : Normalized) (u : Nat) : (nodeStatement n u).IsWritable := by
  refine ⟨nodeName_not_mem_keywords u, List.cons_ne_nil _ _, List.forall_mem_cons.2 ⟨rfl, ?_⟩⟩
  split <;> decide

/-- The line of a block holds its statement. -/
theorem scan_blockLine {indent : String} (hindent : scan .between indent.toList = some (.between, [])) (u : Nat) (id type : String) :
    scan .between s!"{indent}n{u} [label=\"{escape id}\\n{escape type}\", shape=box];\n".toList = some (.between,
      (Statement.node (nodeName u) [("label", .label [id, type]), ("shape", .word "box")]).tokens ++ [.mark ';']) := by
  have hline : scan (.label [] ([] ++ id.toList)) "\\n".toList = some (.label [String.ofList id.toList] [], []) := rfl
  have hclose : scan (.label [id] ([] ++ type.toList)) "\", shape=box];\n".toList = some (.between,
    [.label ([id] ++ [String.ofList type.toList]), .mark ',', .word "shape", .mark '=', .word "box", .mark ']', .mark ';']) := rfl
  rw [String.ofList_toList] at hline hclose
  have hid := scan_append (scan_append (scan_node_head hindent u) (scan_escape [] [] id)) hline
  have hall := scan_append (scan_append hid (scan_escape _ _ type)) hclose
  simp only [String.toList_append]
  exact hall

/-- The line of a bus holds its statement. -/
theorem scan_busLine {indent : String} (hindent : scan .between indent.toList = some (.between, [])) (u : Nat) (id : String) :
    scan .between s!"{indent}n{u} [label=\"{escape id}\", shape=ellipse, style=dashed];\n".toList = some (.between,
      (Statement.node (nodeName u) [("label", .label [id]), ("shape", .word "ellipse"), ("style", .word "dashed")]).tokens
        ++ [.mark ';']) := by
  have hclose : scan (.label [] ([] ++ id.toList)) "\", shape=ellipse, style=dashed];\n".toList = some (.between,
    [.label ([] ++ [String.ofList id.toList]), .mark ',', .word "shape", .mark '=', .word "ellipse", .mark ',', .word "style",
      .mark '=', .word "dashed", .mark ']', .mark ';']) := rfl
  rw [String.ofList_toList] at hclose
  have hall := scan_append (scan_append (scan_node_head hindent u) (scan_escape [] [] id)) hclose
  simp only [String.toList_append]
  exact hall

/-- The line of a node holds its statement. -/
theorem holds_nodeLine (n : Normalized) (r : Registry) {indent : String} (hindent : scan .between indent.toList = some (.between, []))
    {u : Nat} (hu : u < (n.dependencies r).size) : Holds (nodeLine (n.dependencies r) n indent u) (nodeStatement n u) := by
  refine ⟨?_, isWritable_nodeStatement n u⟩
  by_cases hblock : u < n.blocks.length
  · obtain ⟨b, hb⟩ : ∃ b, n.blocks[u]? = some b := ⟨_, List.getElem?_eq_getElem hblock⟩
    simp only [nodeLine, Normalized.node_dependencies, if_pos hblock, Normalized.block?, hb, nodeStatement, Normalized.label]
    exact scan_blockLine hindent u b.id b.type
  · have hbus : u - n.blocks.length < n.buses.length := by
      have : u < n.blocks.length + n.buses.length := hu
      omega
    obtain ⟨b, hb⟩ : ∃ b, n.buses[u - n.blocks.length]? = some b := ⟨_, List.getElem?_eq_getElem hbus⟩
    have hnone : n.blocks[u]? = none := List.getElem?_eq_none (Nat.not_lt.1 hblock)
    simp only [nodeLine, Normalized.node_dependencies, if_neg hblock, Normalized.bus?, hb, nodeStatement, Normalized.label, hnone]
    exact scan_busLine hindent u b.id

/-- The names of two nodes with an arrow between them, up to the label. -/
theorem scan_edge_head (u v : Nat) :
    scan .between ("    n".toList ++ u.repr.toList ++ " -> n".toList ++ v.repr.toList ++ " [label=\"".toList)
      = some (.label [] [], [.word (nodeName u), .mark '-', .mark '>', .word (nodeName v), .mark '[', .word "label", .mark '=']) := by
  have hname : scan .between "    n".toList = some (.word ['n'], []) := rfl
  have harrow : scan (.word (nodeName u).toList) " -> n".toList
      = some (.word ['n'], [.word (String.ofList (nodeName u).toList), .mark '-', .mark '>']) := rfl
  have hopen : scan (.word (nodeName v).toList) " [label=\"".toList
      = some (.label [] [], [.word (String.ofList (nodeName v).toList), .mark '[', .word "label", .mark '=']) := rfl
  rw [String.ofList_toList] at harrow hopen
  exact scan_append (scan_append (scan_append (scan_append hname (scan_repr u)) harrow) (scan_repr v)) hopen

/-- How a link is drawn. -/
def linkStyle (l : Link) : String := if l.kind = .wire then "solid" else "dashed"

/-- A link is on a cycle that is not legal. -/
def IsIllegal (k : Condensation) (l : Link) : Prop :=
  k.placeOf l.source = k.placeOf l.target ∧ (k.componentOf? l.source).all (·.legal) = false

instance (k : Condensation) (l : Link) : Decidable (IsIllegal k l) :=
  inferInstanceAs (Decidable (_ ∧ _))

/-- The statement of a link. -/
def linkStatement (k : Condensation) (l : Link) : Statement :=
  .edge (nodeName l.source) (nodeName l.target) ([("label", .label [l.edgeId]), ("style", .word (linkStyle l))]
    ++ if IsIllegal k l then [("color", .word "red"), ("penwidth", .word "2")] else [])

/-- The line of a link, in the order it is written. -/
theorem toList_linkLine (k : Condensation) (l : Link) : (linkLine k l).toList
    = "    n".toList ++ l.source.repr.toList ++ " -> n".toList ++ l.target.repr.toList ++ " [label=\"".toList
      ++ (escape l.edgeId).toList ++ "\", style=".toList ++ (linkStyle l).toList
      ++ (if IsIllegal k l then ", color=red, penwidth=2" else "").toList ++ "];\n".toList := by
  simp only [linkLine, linkStyle, String.toList_append]
  cases l.kind <;> rfl

/-- The line of a link holds its statement. -/
theorem holds_linkLine (k : Condensation) (l : Link) : Holds (linkLine k l) (linkStatement k l) := by
  have hlabel := scan_append (scan_edge_head l.source l.target) (scan_escape [] [] l.edgeId)
  have hstyle : scan (.label [] ([] ++ l.edgeId.toList)) "\", style=".toList
      = some (.between, [.label ([] ++ [String.ofList l.edgeId.toList]), .mark ',', .word "style", .mark '=']) := rfl
  rw [String.ofList_toList] at hstyle
  have hword : scan .between (linkStyle l).toList = some (.word (linkStyle l).toList, []) := by
    unfold linkStyle
    split <;> rfl
  have hhead := scan_append (scan_append hlabel hstyle) hword
  rw [Holds, toList_linkLine]
  simp only [linkStatement]
  -- what is left of the line depends only on whether the link is drawn in red
  by_cases hred : IsIllegal k l
  · have hclose : scan (.word (linkStyle l).toList) (", color=red, penwidth=2".toList ++ "];\n".toList)
        = some (.between, [.word (String.ofList (linkStyle l).toList), .mark ',', .word "color", .mark '=', .word "red",
            .mark ',', .word "penwidth", .mark '=', .word "2", .mark ']', .mark ';']) := rfl
    rw [String.ofList_toList] at hclose
    have hall := scan_append hhead hclose
    rw [if_pos hred, if_pos hred, List.append_assoc _ ", color=red, penwidth=2".toList]
    exact ⟨hall, List.cons_ne_nil _ _, by simp [Token.isValue]⟩
  · have hclose : scan (.word (linkStyle l).toList) ("".toList ++ "];\n".toList)
        = some (.between, [.word (String.ofList (linkStyle l).toList), .mark ']', .mark ';']) := rfl
    rw [String.ofList_toList] at hclose
    have hall := scan_append hhead hclose
    rw [if_neg hred, if_neg hred, List.append_assoc _ "".toList]
    exact ⟨hall, List.cons_ne_nil _ _, by simp [Token.isValue]⟩

/-! ## Clusters -/

/-- What a cluster is labelled with. -/
def clusterLabel (c : Component) : String := if c.legal then "cycle" else "illegal cycle"

/-- The colour of a cluster. -/
def clusterColor (c : Component) : String := if c.legal then "gray50" else "red"

/-- The statements at the head of a cluster. -/
def clusterSettings (c : Component) : List Statement :=
  [.setting "label" (.label [clusterLabel c]), .setting "style" (.word "rounded"), .setting "color" (.word (clusterColor c))]

/-- The cluster of a component. -/
def clusterOf (n : Normalized) (place : Nat) (c : Component) : Cluster :=
  ⟨clusterName place, clusterSettings c ++ c.nodes.map (nodeStatement n)⟩

/-- The text of a cluster before its nodes. -/
def clusterHead (place : Nat) (c : Component) : String :=
  let label := clusterLabel c
  let color := clusterColor c
  s!"\n    subgraph cluster_scc{place} \x7b\n        label=\"{label}\";\n        style=rounded;\n        color={color};\n"

/-- A cluster is its head, the lines of its nodes and a closing brace. -/
theorem cluster_eq (g : DependencyGraph) (n : Normalized) (place : Nat) (c : Component) :
    cluster g n place c = clusterHead place c ++ String.join (c.nodes.map (nodeLine g n "        ")) ++ "    \x7d\n" := by
  unfold cluster clusterHead clusterLabel clusterColor
  cases c.legal <;> rfl

/-- The name of the cluster of a component, up to its label. -/
theorem scan_cluster_head (place : Nat) :
    scan .between ("\n    subgraph cluster_scc".toList ++ place.repr.toList ++ " \x7b\n        label=\"".toList)
      = some (.label [] [], [.word "subgraph", .word (clusterName place), .mark '\x7b', .word "label", .mark '=']) := by
  have hname : scan .between "\n    subgraph cluster_scc".toList = some (.word "cluster_scc".toList, [.word "subgraph"]) := rfl
  have hplace : scan (.word "cluster_scc".toList) place.repr.toList = some (.word (clusterName place).toList, []) := by
    rw [clusterName, String.toList_append]
    exact scan_word isWordPart_of_mem_repr _
  have hopen : scan (.word (clusterName place).toList) " \x7b\n        label=\"".toList = some (.label [] [],
      [.word (String.ofList (clusterName place).toList), .mark '\x7b', .word "label", .mark '=']) := rfl
  rw [String.ofList_toList] at hopen
  exact scan_append (scan_append hname hplace) hopen

/-- The head of a cluster starts it with its settings. -/
theorem reads_clusterHead (d : Sketch) (place : Nat) (c : Component) :
    Reads (clusterHead place c) ⟨d, none, [], false⟩ ⟨d, some ⟨clusterName place, clusterSettings c⟩, [], false⟩ := by
  have hrest : scan (.label [] []) ((clusterLabel c).toList ++ ("\";\n        style=rounded;\n        color=".toList
      ++ ((clusterColor c).toList ++ ";\n".toList))) = some (.between, [.label [clusterLabel c], .mark ';', .word "style", .mark '=',
        .word "rounded", .mark ';', .word "color", .mark '=', .word (clusterColor c), .mark ';']) := by
    unfold clusterLabel clusterColor
    cases c.legal <;> rfl
  refine ⟨[.word "subgraph", .word (clusterName place), .mark '\x7b', .word "label", .mark '=', .label [clusterLabel c], .mark ';',
    .word "style", .mark '=', .word "rounded", .mark ';', .word "color", .mark '=', .word (clusterColor c), .mark ';'], ?_, rfl⟩
  have hall := scan_append (scan_cluster_head place) hrest
  simp only [← List.append_assoc] at hall
  unfold clusterHead
  simp only [String.toList_append]
  exact hall

/-- A cluster is read with all its nodes. -/
theorem reads_cluster (n : Normalized) (r : Registry) (d : Sketch) (place : Nat) {c : Component}
    (hc : ∀ u ∈ c.nodes, u < (n.dependencies r).size) : Reads (cluster (n.dependencies r) n place c) ⟨d, none, [], false⟩
      ⟨{ d with clusters := d.clusters ++ [clusterOf n place c] }, none, [], false⟩ := by
  have hnodes := reads_statements (fun u hu => holds_nodeLine n r (show scan .between "        ".toList = _ from rfl) (hc u hu)) d
    (some ⟨clusterName place, clusterSettings c⟩)
  have hclose : Reads "    \x7d\n" ⟨d, some (clusterOf n place c), [], false⟩
      ⟨{ d with clusters := d.clusters ++ [clusterOf n place c] }, none, [], false⟩ := ⟨[.mark '\x7d'], rfl, rfl⟩
  rw [cluster_eq]
  exact ((reads_clusterHead d place c).append hnodes).append hclose

/-- Clusters are read one after the other. -/
theorem reads_clusters (n : Normalized) (r : Registry) {cs : List (Component × Nat)}
    (hcs : ∀ c ∈ cs, ∀ u ∈ c.1.nodes, u < (n.dependencies r).size) (d : Sketch) :
    Reads (String.join (cs.map fun (c, i) => cluster (n.dependencies r) n i c)) ⟨d, none, [], false⟩
      ⟨{ d with clusters := d.clusters ++ cs.map fun (c, i) => clusterOf n i c }, none, [], false⟩ := by
  induction cs generalizing d with
  | nil => exact ⟨[], rfl, by simp [Outline.read]⟩
  | cons c cs ih =>
    rw [List.forall_mem_cons] at hcs
    rw [List.map_cons, String.join_cons, List.map_cons]
    simpa using (reads_cluster n r d c.2 hcs.1).append (ih hcs.2 _)

/-! ## Drawings -/

/-- The cycles among the components, with their places. -/
def cycles (k : Condensation) : List (Component × Nat) := k.components.zipIdx.filter fun c => !c.1.trivial

/-- The nodes that are in no cycle. -/
def freeNodes (g : DependencyGraph) (k : Condensation) : List Nat :=
  (List.range g.size).filter fun u => !((cycles k).flatMap fun c => c.1.nodes).contains u

/-- The statements at the head of a drawing. -/
def settings : List Statement :=
  [.setting "rankdir" (.word "LR"),
    .defaults "node" [("fontname", .label ["Helvetica"]), ("fontsize", .word "10")],
    .defaults "edge" [("fontname", .label ["Helvetica"]), ("fontsize", .word "9")]]

/-- What the drawing of a dependency graph shows. -/
def sketch (g : DependencyGraph) (k : Condensation) (n : Normalized) : Sketch where
  statements := settings ++ (freeNodes g k).map (nodeStatement n) ++ g.links.map (linkStatement k)
  clusters := (cycles k).map fun (c, i) => clusterOf n i c

/-- A text that is read up to the closing brace is a drawing, with its head before it. -/
theorem ofText_of_reads {text : String} {d : Sketch} (h : Reads text {} ⟨d, none, [], true⟩) :
    Sketch.ofText ("digraph patch \x7b\n" ++ text) = some d := by
  obtain ⟨ts, hscan, hread⟩ := h
  have hhead : scan .between "digraph patch \x7b\n".toList = some (.between, [.word "digraph", .word "patch", .mark '\x7b']) := rfl
  rw [Sketch.ofText, String.toList_append, scan_append hhead hscan]
  simp only [List.cons_append, List.nil_append, Sketch.ofTokens, hread, if_true]

/-- The head of a drawing, cut after its opening brace and after each statement. -/
theorem head_eq : "digraph patch \x7b\n    rankdir=LR;\n    node [fontname=\"Helvetica\", fontsize=10];\n"
    = "digraph patch \x7b\n" ++ ("    rankdir=LR;\n" ++ "    node [fontname=\"Helvetica\", fontsize=10];\n") := by
  apply String.toList_inj.1
  rw [String.toList_append, String.toList_append]
  rfl

/-- The first lines of a drawing hold its settings. -/
theorem reads_settings : Reads ("    rankdir=LR;\n" ++ "    node [fontname=\"Helvetica\", fontsize=10];\n"
    ++ "    edge [fontname=\"Helvetica\", fontsize=9];\n") {} ⟨⟨settings, []⟩, none, [], false⟩ := by
  have hrankdir : Holds "    rankdir=LR;\n" (.setting "rankdir" (.word "LR")) := ⟨rfl, rfl⟩
  have hnode : Holds "    node [fontname=\"Helvetica\", fontsize=10];\n"
      (.defaults "node" [("fontname", .label ["Helvetica"]), ("fontsize", .word "10")]) :=
    ⟨rfl, by decide, List.cons_ne_nil _ _, by decide⟩
  have hedge : Holds "    edge [fontname=\"Helvetica\", fontsize=9];\n"
      (.defaults "edge" [("fontname", .label ["Helvetica"]), ("fontsize", .word "9")]) :=
    ⟨rfl, by decide, List.cons_ne_nil _ _, by decide⟩
  exact ((hrankdir.reads _ _).append (hnode.reads _ _)).append (hedge.reads _ _)

/-- A drawing is read as what it shows. -/
theorem ofText_drawing (n : Normalized) (r : Registry) (k : Condensation)
    (hk : ∀ c ∈ k.components, ∀ u ∈ c.nodes, u < (n.dependencies r).size) :
    Sketch.ofText (drawing (n.dependencies r) k n) = some (sketch (n.dependencies r) k n) := by
  have hcycles : ∀ c ∈ cycles k, ∀ u ∈ c.1.nodes, u < (n.dependencies r).size := fun c hc =>
    hk c.1 (List.fst_mem_of_mem_zipIdx (List.mem_filter.1 hc).1)
  have hfree : ∀ u ∈ freeNodes (n.dependencies r) k, u < (n.dependencies r).size := fun u hu =>
    List.mem_range.1 (List.mem_filter.1 hu).1
  have hblank : ∀ d, Reads "\n" ⟨d, none, [], false⟩ ⟨d, none, [], false⟩ := fun d => ⟨[], rfl, rfl⟩
  have hclose : ∀ d, Reads "\x7d\n" ⟨d, none, [], false⟩ ⟨d, none, [], true⟩ := fun d => ⟨[.mark '\x7d'], rfl, rfl⟩
  have hnodes := reads_statements (fun u hu => holds_nodeLine n r (show scan .between "    ".toList = _ from rfl) (hfree u hu))
    ⟨settings, (cycles k).map fun (c, i) => clusterOf n i c⟩ none
  have hlinks := reads_statements (fun l (_ : l ∈ (n.dependencies r).links) => holds_linkLine k l)
    ⟨settings ++ (freeNodes (n.dependencies r) k).map (nodeStatement n), (cycles k).map fun (c, i) => clusterOf n i c⟩ none
  have hall := (((((reads_settings.append (reads_clusters n r hcycles _)).append (hblank _)).append hnodes).append (hblank _)).append
    hlinks).append (hclose _)
  have htext := ofText_of_reads hall
  unfold drawing
  rw [head_eq]
  simpa only [String.append_assoc, sketch, cycles, freeNodes] using htext

/-! ## Nodes, edges and clusters -/

/-- The cluster a node is drawn in: that of its component, if it is on a cycle. -/
def clusterOf? (k : Condensation) (u : Nat) : Option String :=
  ((k.componentOf? u).filter fun c => !c.trivial).map fun _ => clusterName (k.placeOf u)

/-- The statements of nodes give back their names and labels. -/
theorem filterMap_node?_nodes (n : Normalized) (us : List Nat) :
    (us.map (nodeStatement n)).filterMap Statement.node? = us.map fun u => (nodeName u, n.label u) := by
  rw [List.filterMap_map, ← List.filterMap_eq_map]
  rfl

/-- The statements of nodes hold no edge. -/
theorem filterMap_edge?_nodes (n : Normalized) (us : List Nat) : (us.map (nodeStatement n)).filterMap Statement.edge? = [] := by
  simp [List.filterMap_map, Statement.edge?, nodeStatement, Function.comp_def]

/-- The statements of links hold no node. -/
theorem filterMap_node?_links (k : Condensation) (ls : List Link) : (ls.map (linkStatement k)).filterMap Statement.node? = [] := by
  simp [List.filterMap_map, Statement.node?, linkStatement, Function.comp_def]

/-- The statements of links give back their ends and the ids of their edges. -/
theorem filterMap_edge?_links (k : Condensation) (ls : List Link) : (ls.map (linkStatement k)).filterMap Statement.edge?
    = ls.map fun l => (nodeName l.source, nodeName l.target, [l.edgeId]) := by
  rw [List.filterMap_map, ← List.filterMap_eq_map]
  rfl

/-- The nodes of a drawing are those of its clusters and then the free ones. -/
theorem nodes_sketch (g : DependencyGraph) (k : Condensation) (n : Normalized) : (sketch g k n).nodes
    = ((cycles k).flatMap fun c => c.1.nodes.map fun u => (some (clusterName c.2), nodeName u, n.label u))
      ++ (freeNodes g k).map fun u => (none, nodeName u, n.label u) := by
  have hsettings : settings.filterMap Statement.node? = [] := rfl
  have hcluster : ∀ c, (clusterSettings c).filterMap Statement.node? = [] := fun _ => rfl
  simp only [Sketch.nodes, sketch, clusterOf, List.flatMap_map, List.filterMap_append, hsettings, hcluster, filterMap_node?_nodes,
    filterMap_node?_links, List.nil_append, List.append_nil, List.map_map]
  rfl

/-- The edges of a drawing are the links. -/
theorem edges_sketch (g : DependencyGraph) (k : Condensation) (n : Normalized) :
    (sketch g k n).edges = g.links.map fun l => (nodeName l.source, nodeName l.target, [l.edgeId]) := by
  have hsettings : settings.filterMap Statement.edge? = [] := rfl
  have hcluster : ∀ c, (clusterSettings c).filterMap Statement.edge? = [] := fun _ => rfl
  simp only [Sketch.edges, sketch, clusterOf, List.flatMap_map, List.filterMap_append, List.filterMap_flatMap, hsettings, hcluster,
    filterMap_edge?_nodes, filterMap_edge?_links, List.nil_append, List.append_nil]
  simp

/-- A component on a cycle stands at its place. -/
theorem mem_cycles_iff {k : Condensation} {c : Component} {i : Nat} :
    (c, i) ∈ cycles k ↔ k.components[i]? = some c ∧ c.trivial = false := by
  simp [cycles, List.mem_filter, List.mem_zipIdx_iff_getElem?]

section

variable {g : DependencyGraph} {n : Normalized} {r : Registry}

/-- The nodes on cycles are nodes of components, in the order of the components. -/
theorem cycles_sublist : ((cycles (g.condense n r)).flatMap fun c => c.1.nodes).Sublist g.graph.components.flatten := by
  have hall : (g.condense n r).components.zipIdx.map (fun c => c.1.nodes) = g.graph.components := by
    rw [← DependencyGraph.nodes_condense (n := n) (r := r)]
    conv_rhs => rw [← List.zipIdx_map_fst 0 (g.condense n r).components, List.map_map, Function.comp_def]
  rw [← hall, List.flatMap_def]
  exact (List.filter_sublist.map _).flatten

/-- The nodes on cycles and the others are all nodes, each once. -/
theorem cycles_freeNodes_perm (hg : g.graph.Closed) (hsize : g.graph.size = g.size) :
    (((cycles (g.condense n r)).flatMap fun c => c.1.nodes) ++ freeNodes g (g.condense n r)).Perm (List.range g.size) := by
  have hperm := hsize ▸ Digraph.components_flatten_perm hg
  have hsub := cycles_sublist (g := g) (n := n) (r := r)
  have hclustered : ((cycles (g.condense n r)).flatMap fun c => c.1.nodes).Perm
      ((List.range g.size).filter fun u => ((cycles (g.condense n r)).flatMap fun c => c.1.nodes).contains u) := by
    have hnodup := hsub.nodup (hperm.nodup_iff.2 List.nodup_range)
    refine (List.perm_ext_iff_of_nodup hnodup (List.nodup_range.filter _)).2 fun u => ?_
    rw [List.mem_filter, List.contains_iff_mem, ← hperm.mem_iff]
    exact ⟨fun hu => ⟨hsub.subset hu, hu⟩, And.right⟩
  exact (hclustered.append_right _).trans (List.filter_append_perm _ _)

/-- A node of a cycle is drawn in the cluster of the cycle. -/
theorem clusterOf?_of_mem_cycles (hg : g.graph.Closed) {c : Component} {i : Nat} (hc : (c, i) ∈ cycles (g.condense n r)) {u : Nat}
    (hu : u ∈ c.nodes) : clusterOf? (g.condense n r) u = some (clusterName i) := by
  obtain ⟨hget, htrivial⟩ := mem_cycles_iff.1 hc
  obtain ⟨-, hplace⟩ := (DependencyGraph.mem_nodes_iff_placeOf hg hget u).1 hu
  simp [clusterOf?, Condensation.componentOf?, hplace, hget, htrivial]

/-- A free node is drawn outside of all clusters. -/
theorem clusterOf?_of_mem_freeNodes (hg : g.graph.Closed) (hsize : g.graph.size = g.size) {u : Nat}
    (hu : u ∈ freeNodes g (g.condense n r)) : clusterOf? (g.condense n r) u = none := by
  obtain ⟨hlt, hfree⟩ := List.mem_filter.1 hu
  obtain ⟨c, hget, hmem⟩ := DependencyGraph.exists_component_at (n := n) (r := r) hg (hsize ▸ List.mem_range.1 hlt)
  have htrivial : c.trivial = true := by
    by_contra hcycle
    have hcycles := mem_cycles_iff.2 ⟨hget, Bool.eq_false_iff.2 hcycle⟩
    have hcontains : u ∈ (cycles (g.condense n r)).flatMap fun c => c.1.nodes := List.mem_flatMap.2 ⟨_, hcycles, hmem⟩
    simp [hcontains] at hfree
  simp [clusterOf?, Condensation.componentOf?, hget, htrivial]

/-- Each node is drawn once, in the cluster of its cycle if it is on one. -/
theorem nodes_sketch_perm (hg : g.graph.Closed) (hsize : g.graph.size = g.size) : (sketch g (g.condense n r) n).nodes.Perm
    ((List.range g.size).map fun u => (clusterOf? (g.condense n r) u, nodeName u, n.label u)) := by
  have hnodes : (sketch g (g.condense n r) n).nodes = (((cycles (g.condense n r)).flatMap fun c => c.1.nodes)
      ++ freeNodes g (g.condense n r)).map fun u => (clusterOf? (g.condense n r) u, nodeName u, n.label u) := by
    rw [nodes_sketch, List.map_append, List.map_flatMap]
    congr 1
    · refine List.flatMap_congr fun c hc => List.map_congr_left fun u hu => ?_
      rw [clusterOf?_of_mem_cycles hg hc hu]
    · refine List.map_congr_left fun u hu => ?_
      rw [clusterOf?_of_mem_freeNodes hg hsize hu]
  rw [hnodes]
  exact (cycles_freeNodes_perm hg hsize).map _

end

/-- Drawings are complete and their labels are safe. The text that is written for the dependencies of a patch is read as a drawing
that has each node once, in the cluster of its component exactly if that is a cycle, one edge for each link in the order of the links,
and one cluster for each cycle; different nodes and cycles have different names, and the labels that are read are the ids and types of
the patch. Whatever a label holds, it ends at the quote that was written to close it. -/
theorem drawing_complete (n : Normalized) (r : Registry) :
    (∃ d, Sketch.ofText (drawing (n.dependencies r) ((n.dependencies r).condense n r) n) = some d
      ∧ d.nodes.Perm ((List.range (n.dependencies r).size).map fun u =>
        (clusterOf? ((n.dependencies r).condense n r) u, nodeName u, n.label u))
      ∧ d.edges = (n.dependencies r).links.map (fun l => (nodeName l.source, nodeName l.target, [l.edgeId]))
      ∧ d.clusters.map (·.name) = (cycles ((n.dependencies r).condense n r)).map fun c => clusterName c.2)
    ∧ Function.Injective nodeName ∧ Function.Injective clusterName
    ∧ (∀ (label : String) (rest : List Char), scan .between ('"' :: (escape label).toList ++ '"' :: rest)
      = (scan .between rest).map fun x => (x.1, .label [label] :: x.2))
    ∧ (∀ (id type : String) (rest : List Char),
      scan .between ('"' :: (escape id).toList ++ '\\' :: 'n' :: (escape type).toList ++ '"' :: rest)
        = (scan .between rest).map fun x => (x.1, .label [id, type] :: x.2)) := by
  have hg := n.closed_dependencies r
  have hsize := n.size_dependencies r
  have hbound : ∀ c ∈ ((n.dependencies r).condense n r).components, ∀ u ∈ c.nodes, u < (n.dependencies r).size := by
    intro c hc u hu
    obtain ⟨i, hi⟩ := List.getElem?_of_mem hc
    exact hsize ▸ ((DependencyGraph.mem_nodes_iff_placeOf hg hi u).1 hu).1
  refine ⟨⟨_, ofText_drawing n r _ hbound, nodes_sketch_perm hg hsize, edges_sketch _ _ n, ?_⟩, nodeName_injective,
    clusterName_injective, scan_quoted, scan_quoted_lines⟩
  rw [sketch, List.map_map]
  rfl

end Dot

end PatchGraph
