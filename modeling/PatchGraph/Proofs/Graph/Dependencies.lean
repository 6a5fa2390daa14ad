import PatchGraph.Proofs.Graph.Edges

/-!
# What the dependency graph is made of

Every edge of a normalized patch is accounted for: either both its ends are at nodes (`Normalized.EndsAt`) and it is one link, or it is
no link, and one or two diagnostics are located at it. The successors of a node are the targets of its links, ascending and each once
(`dependencies_exact`).
-/

namespace PatchGraph

/-! ## Ends at nodes -/

namespace Normalized

/-- An end of an edge is at a node: at the block that it names, if the type of the block declares the port on that side of the edge or is
not known, or at the bus that it names. -/
inductive EndsAt (n : Normalized) (r : Registry) (side : Side) : Endpoint → Nat → Prop
  | block {u : Nat} {b : Block} {port : String} (hb : n.blocks[u]? = some b)
    (hport : ∀ d, r.decl? b.type = some d → d.DeclaresOn port side) : EndsAt n r side (.port b.id port) u
  | bus {k : Nat} {b : Bus} (hb : n.buses[k]? = some b) : EndsAt n r side (.bus b.id) (n.blocks.length + k)

variable {n : Normalized} {r : Registry}

/-- An end that is found to be a node is at that node. -/
theorem endsAt_of_endNode {side : Side} {e : Endpoint} {u : Nat} (h : n.endNode r side e = .ok u) : n.EndsAt r side e u := by
  cases e with
  | port block port =>
    obtain ⟨b, hb, rfl⟩ := endNode_port h
    obtain ⟨i, hi, rfl⟩ := Option.map_eq_some_iff.1 hb
    obtain ⟨x, hx, rfl⟩ := getElem?_findIdx? hi
    refine .block hx fun d hd => BlockDecl.hasPort_iff.1 (hasPort_of_endNode h hb ?_)
    rw [decl?, block?, hx, Option.bind_some, hd]
  | bus id =>
    obtain ⟨b, hb, rfl⟩ := endNode_bus h
    obtain ⟨i, hi, rfl⟩ := Option.map_eq_some_iff.1 hb
    obtain ⟨x, hx, rfl⟩ := getElem?_findIdx? hi
    exact .bus hx

/-- An end at a node is found there, if no id occurs twice. -/
theorem endNode_of_endsAt (hn : n.Distinct) {side : Side} {e : Endpoint} {u : Nat} (h : n.EndsAt r side e u) :
    n.endNode r side e = .ok u := by
  cases h with
  | @block u b port hb hport =>
    have hix : n.blockIx? b.id = some ⟨u⟩ := by
      rw [blockIx?, findIdx?_of_nodup hn.blocks hb]
      rfl
    have hdecl : n.decl? r ⟨u⟩ = r.decl? b.type := by rw [decl?, block?, hb, Option.bind_some]
    simp only [endNode, hix, hdecl]
    cases hd : r.decl? b.type with
    | none => rfl
    | some d => exact if_pos (BlockDecl.hasPort_iff.2 (hport d hd))
  | @bus k b hb =>
    have hix : n.busIx? b.id = some ⟨k⟩ := hn.busIx?_id hb
    simp only [endNode, hix]

/-- An end is found to be a node if and only if it is at that node. -/
theorem endNode_eq_ok_iff (hn : n.Distinct) {side : Side} {e : Endpoint} {u : Nat} :
    n.endNode r side e = .ok u ↔ n.EndsAt r side e u :=
  ⟨endsAt_of_endNode, endNode_of_endsAt hn⟩

end Normalized

/-! ## One edge -/

/-- What an edge is between, for each kind of link. -/
def Edge.IsKind (e : Edge) : LinkKind → Prop
  | .wire => (∃ block port, e.source = .port block port) ∧ ∃ block port, e.target = .port block port
  | .publish => (∃ block port, e.source = .port block port) ∧ ∃ id, e.target = .bus id
  | .listen => (∃ id, e.source = .bus id) ∧ ∃ block port, e.target = .port block port

/-- An edge joins buses if both its ends are buses. -/
theorem Edge.joinsBuses_iff {e : Edge} : e.joinsBuses = true ↔ ∃ a b, e.source = .bus a ∧ e.target = .bus b := by
  unfold joinsBuses
  cases e.source <;> cases e.target <;> simp

/-- The kind of a link is that of its edge. -/
theorem Edge.isKind_linkKind {e : Edge} (h : e.joinsBuses = false) : e.IsKind (Normalized.linkKind e) := by
  unfold Normalized.linkKind
  cases hs : e.source <;> cases ht : e.target
  case bus.bus => simp [joinsBuses, hs, ht] at h
  all_goals simp [IsKind, hs, ht]

namespace Normalized

/-- An edge can be a link: it does not join two buses, and both its ends are at nodes. -/
def Resolves (n : Normalized) (r : Registry) (e : Edge) : Prop :=
  (¬∃ a b, e.source = .bus a ∧ e.target = .bus b) ∧ (∃ u, n.EndsAt r .output e.source u) ∧ ∃ v, n.EndsAt r .input e.target v

/-- The link of an edge: it joins the nodes that the ends of the edge are at, and it is of the kind of the edge. -/
structure IsLinkOf (n : Normalized) (r : Registry) (e : Edge) (l : Link) : Prop where
  source : n.EndsAt r .output e.source l.source
  target : n.EndsAt r .input e.target l.target
  kind : e.IsKind l.kind
  edgeId : l.edgeId = e.id

variable {n : Normalized} {r : Registry} {e : Edge}

/-- An edge is one link if it does not join buses and both its ends are nodes. -/
theorem resolves_iff (hn : n.Distinct) : n.Resolves r e ↔
    e.joinsBuses = false ∧ (∃ u, n.endNode r .output e.source = .ok u) ∧ ∃ v, n.endNode r .input e.target = .ok v := by
  simp only [Resolves, ← Edge.joinsBuses_iff, Bool.not_eq_true, endNode_eq_ok_iff hn]

/-- The link of an edge has the ends of the edge and knows its place. -/
theorem isLinkOf_of_link? {i : Nat} {l : Link} (h : n.link? r e i = some l) : n.IsLinkOf r e l ∧ l.edge = i := by
  unfold link? at h
  cases hjoins : e.joinsBuses with
  | true =>
    rw [hjoins] at h
    cases h
  | false =>
    rw [hjoins, if_neg Bool.false_ne_true] at h
    cases hu : n.endNode r .output e.source with
    | error p =>
      rw [hu] at h
      cases h
    | ok u =>
      cases hv : n.endNode r .input e.target with
      | error p =>
        rw [hu, hv] at h
        cases h
      | ok v =>
        rw [hu, hv] at h
        obtain rfl := Option.some.inj h
        exact ⟨⟨endsAt_of_endNode hu, endsAt_of_endNode hv, Edge.isKind_linkKind hjoins, rfl⟩, rfl⟩

/-- An edge with both ends at nodes is a link, and nothing is said about it. -/
theorem link?_of_resolves (hn : n.Distinct) (h : n.Resolves r e) (i : Nat) :
    (∃ l, n.link? r e i = some l) ∧ n.linkDiagnostics r e = [] := by
  obtain ⟨hjoins, ⟨u, hu⟩, v, hv⟩ := (resolves_iff hn).1 h
  constructor
  · exact ⟨⟨u, v, linkKind e, i, e.id⟩, by simp [link?, hjoins, hu, hv]⟩
  · simp [linkDiagnostics, hjoins, endDiagnostics, hu, hv]

/-- Another edge is no link, and one or two things are said about it. -/
theorem link?_of_not_resolves (hn : n.Distinct) (h : ¬n.Resolves r e) (i : Nat) :
    n.link? r e i = none ∧ 1 ≤ (n.linkDiagnostics r e).length ∧ (n.linkDiagnostics r e).length ≤ 2 := by
  rw [resolves_iff hn] at h
  unfold link? linkDiagnostics
  cases hjoins : e.joinsBuses with
  | true => simp
  | false =>
    cases hu : n.endNode r .output e.source with
    | error p => cases hv : n.endNode r .input e.target <;> simp [endDiagnostics, hu, hv]
    | ok u =>
      cases hv : n.endNode r .input e.target with
      | error p => simp [endDiagnostics, hu, hv]
      | ok v => exact absurd ⟨hjoins, ⟨u, hu⟩, v, hv⟩ h

theorem EndProblem.locator_diagnostic (edge : String) (p : EndProblem) : (p.diagnostic edge).locator = .edge edge := by
  cases p <;> rfl

/-- What is said about an edge is located at it. -/
theorem locator_linkDiagnostics (n : Normalized) (r : Registry) (e : Edge) : ∀ d ∈ n.linkDiagnostics r e, d.locator = .edge e.id := by
  have hends : ∀ side x, ∀ d ∈ n.endDiagnostics r e.id side x, d.locator = .edge e.id := by
    intro side x d hd
    unfold endDiagnostics at hd
    cases hx : n.endNode r side x with
    | ok u =>
      rw [hx] at hd
      cases hd
    | error p =>
      rw [hx] at hd
      obtain rfl := List.mem_singleton.1 hd
      exact EndProblem.locator_diagnostic e.id p
  intro d hd
  unfold linkDiagnostics at hd
  split at hd
  · obtain rfl := List.mem_singleton.1 hd
    rfl
  · rcases List.mem_append.1 hd with hd | hd
    · exact hends _ _ d hd
    · exact hends _ _ d hd

/-! ## All edges -/

/-- The links of an edge: its own, if it has one. -/
theorem links_of_edge {i : Nat} (he : n.edges[i]? = some e) :
    ((n.dependencies r).links.filter fun l => l.edge = i) = (n.link? r e i).toList := by
  have hplace := filter_place_zipIdx n.edges i 0
  simp only [Nat.zero_add, he, Option.map_some, Option.toList_some] at hplace
  show ((n.edges.zipIdx.filterMap fun x => n.link? r x.1 x.2).filter fun l => l.edge = i) = _
  rw [filter_filterMap_place, hplace]
  · cases hl : n.link? r e i <;> simp [hl]
  · intro x l hl
    rw [decide_eq_true_iff, (isLinkOf_of_link? hl).2]

/-- Every link comes from an edge of the patch. -/
theorem exists_edge_of_link {l : Link} (hl : l ∈ (n.dependencies r).links) : l.edge < n.edges.length := by
  obtain ⟨⟨e, i⟩, he, hlink⟩ := List.mem_filterMap.1 hl
  obtain ⟨hlt, -⟩ := List.getElem?_eq_some_iff.1 (List.mem_zipIdx_iff_getElem?.1 he)
  rwa [(isLinkOf_of_link? hlink).2]

/-- What is located at an id is said about the edges of that id. -/
theorem filter_dependencyDiagnostics (n : Normalized) (r : Registry) (id : String) :
    ((n.dependencyDiagnostics r).filter fun d => d.locator = .edge id)
      = (n.edges.filter fun e => e.id = id).flatMap (n.linkDiagnostics r) := by
  unfold dependencyDiagnostics
  induction n.edges with
  | nil => rfl
  | cons e rest ih =>
    rw [List.flatMap_cons, List.filter_append, ih]
    have hlocators := n.locator_linkDiagnostics r e
    by_cases hid : e.id = id
    · have hall : ((n.linkDiagnostics r e).filter fun d => d.locator = .edge id) = n.linkDiagnostics r e := by
        rw [List.filter_eq_self]
        intro d hd
        rw [hlocators d hd, hid]
        exact decide_eq_true rfl
      rw [hall, List.filter_cons_of_pos (by simpa using hid), List.flatMap_cons]
    · have hnone : ((n.linkDiagnostics r e).filter fun d => d.locator = .edge id) = [] := by
        rw [List.filter_eq_nil_iff]
        intro d hd
        rw [hlocators d hd]
        simpa using hid
      rw [hnone, List.filter_cons_of_neg (by simpa using hid), List.nil_append]

end Normalized

/-! ## Nodes and successors -/

/-- The nodes of a patch's graph are its blocks, then its buses. -/
theorem Normalized.nodes_dependencies (n : Normalized) (r : Registry) : (n.dependencies r).nodes
    = (List.range n.blocks.length).map (fun i => .block ⟨i⟩) ++ (List.range n.buses.length).map (fun i => .bus ⟨i⟩) := by
  have hsize : (n.dependencies r).size = n.blocks.length + n.buses.length := rfl
  rw [DependencyGraph.nodes, hsize, List.range_add, List.map_append, List.map_map]
  congr 1
  · refine List.map_congr_left fun u hu => ?_
    rw [node_dependencies, if_pos (List.mem_range.1 hu)]
  · refine List.map_congr_left fun u _ => ?_
    simp [node_dependencies]

/-- The dependency graph of a normalized patch is exact. Its nodes are the blocks, then the buses. Each edge whose ends are at nodes, and
that does not join two buses, is one link between these nodes, of its own kind, and nothing is said about it. Each other edge is no link,
and one or two diagnostics are located at it; there are no other links and diagnostics, so that the diagnostics located at an id are
those of the edges that have it. The successors of a node are the targets of its links, ascending and each once, and a node has a loop
exactly if a link leads from it to itself. -/
theorem dependencies_exact (p : Patch) (r₀ r : Registry) :
    let n := (p.normalize r₀).1
    let g := n.dependencies r
    g.nodes = (List.range n.blocks.length).map (fun i => .block ⟨i⟩) ++ (List.range n.buses.length).map (fun i => .bus ⟨i⟩) ∧
    (∀ i e, n.edges[i]? = some e →
      (n.Resolves r e ∧ (∃ l, (g.links.filter fun l => l.edge = i) = [l] ∧ n.IsLinkOf r e l) ∧ n.linkDiagnostics r e = []) ∨
      (¬n.Resolves r e ∧ (g.links.filter fun l => l.edge = i) = [] ∧
        1 ≤ (n.linkDiagnostics r e).length ∧ (n.linkDiagnostics r e).length ≤ 2 ∧
        ∀ d ∈ n.linkDiagnostics r e, d.locator = .edge e.id)) ∧
    (∀ l ∈ g.links, l.edge < n.edges.length) ∧
    n.dependencyDiagnostics r = n.edges.flatMap (n.linkDiagnostics r) ∧
    (∀ id, ((n.dependencyDiagnostics r).filter fun d => d.locator = .edge id)
      = (n.edges.filter fun e => e.id = id).flatMap (n.linkDiagnostics r)) ∧
    ∀ u, (g.graph.successors u).Pairwise (· < ·) ∧
      (∀ v, v ∈ g.graph.successors u ↔ ∃ l ∈ g.links, l.source = u ∧ l.target = v) ∧
      (g.graph.hasLoop u = true ↔ ∃ l ∈ g.links, l.source = u ∧ l.target = u) := by
  intro n g
  have hn : n.Distinct := p.distinct_normalize r₀
  refine ⟨n.nodes_dependencies r, ?_, fun l hl => Normalized.exists_edge_of_link hl, rfl, n.filter_dependencyDiagnostics r, ?_⟩
  · intro i e he
    rw [Normalized.links_of_edge he]
    by_cases h : n.Resolves r e
    · obtain ⟨⟨l, hl⟩, hsilent⟩ := Normalized.link?_of_resolves hn h i
      refine .inl ⟨h, ⟨l, ?_, (Normalized.isLinkOf_of_link? hl).1⟩, hsilent⟩
      rw [hl, Option.toList_some]
    · obtain ⟨hl, hone, htwo⟩ := Normalized.link?_of_not_resolves hn h i
      refine .inr ⟨h, ?_, hone, htwo, n.locator_linkDiagnostics r e⟩
      rw [hl, Option.toList_none]
  · intro u
    refine ⟨Digraph.ascending_successors_ofArrows _ _ u, fun v => Normalized.mem_successors_iff, ?_⟩
    rw [Digraph.hasLoop, List.contains_iff_mem, Normalized.mem_successors_iff]

end PatchGraph
