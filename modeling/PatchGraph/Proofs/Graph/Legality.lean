import PatchGraph.Proofs.Graph.Boundaries
import PatchGraph.Proofs.Graph.Links

/-!
# Cycles that are reported

The check of cycles says one thing about each component with a cycle but no state boundary, and nothing about the others. It names the
blocks of the component in order: the cycle is reported at the first of them and points to the others (`Normalized.Reports`). There
always is a block to name, for no edge joins two buses.
-/

namespace PatchGraph

namespace Normalized

variable {n : Normalized} {r : Registry}

/-! ## Components that may not stand -/

/-- There is a state boundary at a node: a block whose type is declared to be one. -/
def BoundaryAt (n : Normalized) (r : Registry) (u : Nat) : Prop :=
  ∃ b d, n.blocks[u]? = some b ∧ r.decl? b.type = some d ∧ d.stateBoundary = true

theorem isBoundary_iff {u : Nat} : (n.dependencies r).isBoundary n r u = true ↔ n.BoundaryAt r u := by
  unfold DependencyGraph.isBoundary BoundaryAt
  rw [node_dependencies]
  by_cases hu : u < n.blocks.length
  · simp only [if_pos hu, isBoundary, decl?, block?, List.getElem?_eq_getElem hu, Option.bind_some]
    cases hd : r.decl? n.blocks[u].type <;> simp [hd]
  · simp [hu]

instance (n : Normalized) (r : Registry) (u : Nat) : Decidable (n.BoundaryAt r u) := decidable_of_iff _ isBoundary_iff

/-- Nodes that form a component may not stand: there are several of them, or a link leads from one to itself, and there is no state
boundary at any of them. -/
def IllegalAt (n : Normalized) (r : Registry) (us : List Nat) : Prop :=
  (1 < us.length ∨ ∃ u ∈ us, ∃ l ∈ (n.dependencies r).links, l.source = u ∧ l.target = u) ∧ ∀ u ∈ us, ¬n.BoundaryAt r u

instance (n : Normalized) (r : Registry) (us : List Nat) : Decidable (n.IllegalAt r us) :=
  inferInstanceAs (Decidable (_ ∧ _))

/-- Nodes are free of cycles exactly if there is one, and no link leads from it to itself. -/
theorem isTrivial_eq_false_iff {us : List Nat} (hus : us ≠ []) : (n.dependencies r).isTrivial us = false ↔
    1 < us.length ∨ ∃ u ∈ us, ∃ l ∈ (n.dependencies r).links, l.source = u ∧ l.target = u := by
  cases us with
  | nil => exact absurd rfl hus
  | cons u rest =>
    cases rest with
    | nil =>
      rw [DependencyGraph.isTrivial, Bool.not_eq_false', Digraph.hasLoop, List.contains_iff_mem, mem_successors_iff]
      simp only [List.length_singleton, lt_irrefl, false_or, List.mem_singleton, exists_eq_left]
    | cons v rest =>
      have hseveral : 1 < (u :: v :: rest).length := by simp
      exact iff_of_true rfl (.inl hseveral)

variable {k : Component}

theorem legal_eq_false_iff (hk : k ∈ ((n.dependencies r).condense n r).components) : k.legal = false ↔ n.IllegalAt r k.nodes := by
  have hcomponent := DependencyGraph.isComponent_nodes (n.closed_dependencies r) hk
  have hboundary : (n.dependencies r).hasBoundary n r k.nodes = false ↔ ∀ u ∈ k.nodes, ¬n.BoundaryAt r u := by
    rw [← Bool.not_eq_true, DependencyGraph.hasBoundary_iff]
    simp only [isBoundary_iff, not_exists, not_and]
  rw [DependencyGraph.legal_of_mem_condense hk, DependencyGraph.trivial_of_mem_condense hk, Bool.or_eq_false_iff,
    isTrivial_eq_false_iff hcomponent.ne_nil, hboundary, IllegalAt]

/-! ## Blocks of a component -/

/-- A cycle runs through a block. -/
theorem exists_block_of_isCycle {us : List Nat} (h : (n.dependencies r).graph.IsCycle us) :
    ∃ u ∈ us, (n.dependencies r).isBlock u = true := by
  obtain ⟨u, hu⟩ := List.exists_mem_of_ne_nil us h.ne_nil
  obtain ⟨v, hv, hedge⟩ := h.exists_successor hu
  obtain ⟨l, hl, rfl, rfl⟩ := mem_successors_iff.1 hedge
  obtain ⟨-, -, hsource, htarget⟩ := link_ends hl
  by_cases hlisten : l.kind = .listen
  · -- the link starts at a bus, so that it leads to a block
    exact ⟨l.target, hv, htarget.2 (by simp [hlisten])⟩
  · exact ⟨l.source, hu, hsource.2 hlisten⟩

/-- The blocks among nodes have the numbers of these nodes. -/
theorem map_index_blocksOf (us : List Nat) :
    ((n.dependencies r).blocksOf us).map (·.index) = us.filter fun u => u < n.blocks.length := by
  induction us with
  | nil => rfl
  | cons u rest ih =>
    unfold DependencyGraph.blocksOf at ih ⊢
    by_cases hu : u < n.blocks.length
    · rw [List.filter_cons_of_pos (by simpa using hu), ← ih,
        List.filterMap_cons_some (b := ⟨u⟩) (by rw [node_dependencies, if_pos hu]), List.map_cons]
    · rw [List.filter_cons_of_neg (by simpa using hu), ← ih, List.filterMap_cons_none (by rw [node_dependencies, if_neg hu])]

theorem mem_blocksOf {us : List Nat} {b : BlockIx} :
    b ∈ (n.dependencies r).blocksOf us ↔ b.index ∈ us ∧ b.index < n.blocks.length := by
  have hinjective : Function.Injective BlockIx.index := fun a b h => by cases a; cases b; congr
  rw [← List.mem_map_of_injective hinjective, map_index_blocksOf, List.mem_filter, decide_eq_true_iff]

/-- There is a block in every component with a cycle. -/
theorem blocksOf_ne_nil (hk : k ∈ ((n.dependencies r).condense n r).components) (htrivial : k.trivial = false) :
    (n.dependencies r).blocksOf k.nodes ≠ [] := by
  have hg := n.closed_dependencies r
  obtain ⟨u, hu, us, hcycle⟩ := (DependencyGraph.trivial_eq_false_iff hg hk).1 htrivial
  obtain ⟨v, hv, hblock⟩ := exists_block_of_isCycle hcycle
  have hvk : v ∈ k.nodes :=
    ((DependencyGraph.isComponent_nodes hg hk).mem_iff u hu v).2 (hcycle.connected List.mem_cons_self hv)
  have hmem : ⟨v⟩ ∈ (n.dependencies r).blocksOf k.nodes := mem_blocksOf.2 ⟨hvk, of_decide_eq_true hblock⟩
  exact List.ne_nil_of_mem hmem

/-! ## Reports -/

/-- A diagnostic reports nodes as an illegal cycle: it is located at the first block among them and points to all others, in order. -/
structure Reports (n : Normalized) (us : List Nat) (d : Diagnostic) : Prop where
  number : d.code.map (·.number) = some "E0400"
  level : d.level = .error
  blocks : ∃ b rest, (b :: rest).Pairwise (fun x y => x.index < y.index) ∧
    (∀ x : BlockIx, x ∈ b :: rest ↔ x.index ∈ us ∧ x.index < n.blocks.length) ∧
    d.locator = .block (n.blockId b) ∧ d.related.map (·.locator) = rest.map fun x => .block (n.blockId x)

theorem reports_illegalCycle (hk : k ∈ ((n.dependencies r).condense n r).components) (hillegal : k.legal = false) :
    n.Reports k.nodes ((n.dependencies r).illegalCycle n k.nodes) := by
  have hcomponent := DependencyGraph.isComponent_nodes (n.closed_dependencies r) hk
  rw [DependencyGraph.legal_of_mem_condense hk, Bool.or_eq_false_iff] at hillegal
  obtain ⟨b, rest, hblocks⟩ := List.exists_cons_of_ne_nil (blocksOf_ne_nil hk hillegal.1)
  have hascending : ((n.dependencies r).blocksOf k.nodes).Pairwise fun x y => x.index < y.index := by
    rw [← List.pairwise_map (f := BlockIx.index) (R := (· < ·)), map_index_blocksOf]
    exact hcomponent.ascending.filter _
  refine ⟨rfl, rfl, b, rest, hblocks ▸ hascending, fun x => hblocks ▸ mem_blocksOf, ?_, ?_⟩
  · unfold DependencyGraph.illegalCycle
    rw [hblocks]
    rfl
  · unfold DependencyGraph.illegalCycle
    rw [hblocks]
    simp [Diagnostic.withRelated, Diagnostic.withHint, Diagnostic.error, Function.comp_def]

/-- Each component that may not stand is reported once, in the order of the components. -/
theorem reports_cycleDiagnostics (n : Normalized) (r : Registry) : List.Forall₂ (fun k d => n.Reports k.nodes d)
    (((n.dependencies r).condense n r).components.filter fun k => n.IllegalAt r k.nodes) ((n.dependencies r).cycleDiagnostics n r) := by
  have hillegal : (((n.dependencies r).condense n r).components.filter fun k => n.IllegalAt r k.nodes)
      = ((n.dependencies r).condense n r).components.filter (!·.legal) := by
    refine List.filter_congr fun k hk => ?_
    rw [Bool.eq_iff_iff, decide_eq_true_iff, ← legal_eq_false_iff hk, Bool.not_eq_true']
  rw [hillegal, DependencyGraph.cycleDiagnostics, List.forall₂_map_right_iff, List.forall₂_same]
  intro k hk
  obtain ⟨hk, hlegal⟩ := List.mem_filter.1 hk
  rw [Bool.not_eq_true'] at hlegal
  exact reports_illegalCycle hk hlegal

/-- There is a state boundary in every component with a cycle exactly if each node on a cycle has one that it reaches and that reaches
it. -/
theorem boundary_components_iff :
    (∀ k ∈ ((n.dependencies r).condense n r).components, k.trivial = false → ∃ v ∈ k.nodes, n.BoundaryAt r v) ↔
    ∀ u, (∃ us, (n.dependencies r).graph.IsCycle us ∧ u ∈ us) → ∃ v, n.BoundaryAt r v ∧ (n.dependencies r).graph.Connected u v := by
  have hg := n.closed_dependencies r
  constructor
  · rintro hcomponents u ⟨us, hcycle, hu⟩
    obtain ⟨k, hk, huk⟩ := DependencyGraph.exists_component_at (n := n) (r := r) hg (hcycle.lt_size hg hu)
    have hk := List.mem_of_getElem? hk
    have hmem := (DependencyGraph.isComponent_nodes hg hk).mem_iff u huk
    -- the component of a node has the whole cycle in it
    obtain ⟨w, ws, rfl⟩ := List.exists_cons_of_ne_nil hcycle.ne_nil
    have hwk : w ∈ k.nodes := (hmem w).2 (hcycle.connected hu List.mem_cons_self)
    obtain ⟨v, hvk, hv⟩ := hcomponents k hk ((DependencyGraph.trivial_eq_false_iff hg hk).2 ⟨w, hwk, ws, hcycle⟩)
    exact ⟨v, hv, (hmem v).1 hvk⟩
  · intro hcycles k hk htrivial
    obtain ⟨u, huk, us, hcycle⟩ := (DependencyGraph.trivial_eq_false_iff hg hk).1 htrivial
    obtain ⟨v, hv, huv⟩ := hcycles u ⟨u :: us, hcycle, List.mem_cons_self⟩
    exact ⟨v, ((DependencyGraph.isComponent_nodes hg hk).mem_iff u huk v).2 huv, hv⟩

end Normalized

/-- The check of cycles is exact. The components are the sets of nodes that reach each other. Of these, those that have a cycle but no state
boundary are each reported once, as an error that is located at the smallest block and points to the other blocks in ascending order, and
nothing is said about the others. So there is nothing to say exactly if each node on a cycle reaches, and is reached from, a state
boundary. -/
theorem cycleDiagnostics_exact (n : Normalized) (r : Registry) :
    let g := n.dependencies r
    let components := (g.condense n r).components
    (∀ k ∈ components, Digraph.IsComponent g.graph k.nodes) ∧
    List.Forall₂ (fun k d => n.Reports k.nodes d) (components.filter fun k => n.IllegalAt r k.nodes) (g.cycleDiagnostics n r) ∧
    (g.cycleDiagnostics n r = [] ↔
      ∀ u, (∃ us, g.graph.IsCycle us ∧ u ∈ us) → ∃ v, n.BoundaryAt r v ∧ g.graph.Connected u v) := by
  intro g components
  refine ⟨fun k hk => DependencyGraph.isComponent_nodes (n.closed_dependencies r) hk, n.reports_cycleDiagnostics r, ?_⟩
  rw [DependencyGraph.cycleDiagnostics_eq_nil, ← Normalized.boundary_components_iff]
  simp only [g, Normalized.isBoundary_iff]

end PatchGraph
