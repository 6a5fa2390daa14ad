import PatchGraph.Proofs.Graph.Order

/-!
# The order inside a cycle

Taking free nodes splits the nodes in two. The nodes that a cycle of wires leads to are never free, and all others get free one after the
other, each after the sources of its wires (`exists_freeOrder_eq`). So inside a cycle of the dependency graph the blocks that no cycle of
counted wires leads to come first, in an order that the wires agree with, then the blocks that are trapped, in the order of their
places, then the buses.
-/

namespace PatchGraph

open Relation

/-- The nodes that get free, each after the sources of its wires, and then the trapped nodes as they were. What is asked of the remaining
nodes holds at the start, if all wires start from them, and is kept, since no trapped node is ever taken. -/
theorem exists_freeOrder_eq (wires : List (Nat × Nat)) (remaining : List Nat)
    (hclosed : ∀ v ∈ remaining, Trapped (fun u v => (u, v) ∈ wires) v →
      ∃ u ∈ remaining, Trapped (fun u v => (u, v) ∈ wires) u ∧ (u, v) ∈ wires) :
    ∃ free trapped, freeOrder wires remaining = free ++ trapped ∧ trapped.Sublist remaining
      ∧ (∀ u ∈ remaining, u ∈ trapped ↔ Trapped (fun u v => (u, v) ∈ wires) u)
      ∧ ∀ before v after, free = before ++ v :: after → ∀ u ∈ remaining, (u, v) ∈ wires → u ∈ before := by
  fun_induction freeOrder wires remaining with
  | case1 remaining h =>
    refine ⟨[], remaining, rfl, .refl _, fun u hu => ⟨fun _ => ?_, fun _ => hu⟩, fun before v after hsplit => ?_⟩
    · -- nothing is free, so nothing is left that is not trapped
      by_contra htrapped
      obtain ⟨v, hv, hfree⟩ := exists_isFree hu htrapped
      exact List.find?_eq_none.1 h v hv hfree
    · cases List.nil_eq_append_iff.1 hsplit |>.2
  | case2 remaining w h ih =>
    have hfree := isFree_iff.1 (List.find?_some h)
    have hloose : ¬Trapped (fun u v => (u, v) ∈ wires) w := fun htrapped => by
      obtain ⟨u, hu, -, hwire⟩ := hclosed w (List.mem_of_find?_eq_some h) htrapped
      exact hfree u hu hwire
    have hkept : ∀ u ∈ remaining, u ≠ w → u ∈ remaining.erase w := fun u hu hne => (List.mem_erase_of_ne hne).2 hu
    obtain ⟨free, trapped, heq, hsublist, htrapped, hsources⟩ := ih fun v hv hvtrapped => by
      obtain ⟨u, hu, hutrapped, hwire⟩ := hclosed v (List.mem_of_mem_erase hv) hvtrapped
      exact ⟨u, hkept u hu fun heq => hloose (heq ▸ hutrapped), hutrapped, hwire⟩
    refine ⟨w :: free, trapped, congrArg (List.cons w) heq, hsublist.trans List.erase_sublist, fun u hu => ?_, ?_⟩
    · constructor
      · exact fun hmem => (htrapped u (hsublist.subset hmem)).1 hmem
      · intro hutrapped
        exact (htrapped u (hkept u hu fun heq => hloose (heq ▸ hutrapped))).2 hutrapped
    · intro before v after hsplit u hu hwire
      cases before with
      | nil =>
        obtain ⟨rfl, -⟩ := List.cons.inj hsplit
        exact absurd hwire (hfree u hu)
      | cons x before =>
        obtain ⟨rfl, hrest⟩ := List.cons.inj hsplit
        by_cases hne : u = w
        · exact hne ▸ List.mem_cons_self
        · exact List.mem_cons_of_mem _ (hsources before v after hrest u (hkept u hu hne) hwire)

/-- A node that must be found in front of another comes before it. -/
theorem idxOf_lt_idxOf {us : List Nat} (hnodup : us.Nodup) {before after : List Nat} {u v : Nat} (hsplit : us = before ++ v :: after)
    (hu : u ∈ before) : us.idxOf u < us.idxOf v := by
  subst hsplit
  have hv : v ∉ before := fun hmem => (List.nodup_append.1 hnodup).2.2 v hmem v List.mem_cons_self rfl
  rw [List.idxOf_append_of_mem hu, List.idxOf_append_of_notMem hv, List.idxOf_cons_self]
  exact Nat.lt_of_lt_of_le (List.idxOf_lt_length_of_mem hu) (Nat.le_add_right ..)

namespace DependencyGraph

/-- A wire that counts among nodes: both ends are blocks of them, and its target is no state boundary. -/
def Counts (g : DependencyGraph) (n : Normalized) (r : Registry) (nodes : List Nat) (u v : Nat) : Prop :=
  (∃ l ∈ g.links, l.kind = .wire ∧ l.source = u ∧ l.target = v)
    ∧ (u ∈ nodes ∧ g.isBlock u = true) ∧ (v ∈ nodes ∧ g.isBlock v = true) ∧ g.isBoundary n r v = false

variable {g : DependencyGraph} {n : Normalized} {r : Registry}

theorem counts_iff {nodes : List Nat} {u v : Nat} :
    g.Counts n r nodes u v ↔ (u, v) ∈ g.countedWires n r (nodes.filter g.isBlock) := by
  rw [mem_countedWires, List.mem_filter, List.mem_filter, Counts]

end DependencyGraph

/-- The order inside a component. It holds the nodes of the component, first the blocks, then the buses. Among the blocks, those that a
cycle of counted wires leads to come last, by their places; and the source of a counted wire comes before its target, unless such a cycle
leads to the target. -/
theorem cycleOrder_along_counted_wires (n : Normalized) (r : Registry) {k : Component}
    (hk : k ∈ ((n.dependencies r).condense n r).components) :
    let g := n.dependencies r
    let order := g.cycleOrder n r k.nodes
    order.Perm k.nodes
      ∧ (∃ free trapped buses, order = free ++ trapped ++ buses
        ∧ (∀ u ∈ free ++ trapped, g.isBlock u = true) ∧ (∀ u ∈ buses, g.isBlock u = false)
        ∧ (∀ u ∈ free ++ trapped, u ∈ trapped ↔ Trapped (g.Counts n r k.nodes) u) ∧ trapped.Pairwise (· < ·))
      ∧ ∀ u v, g.Counts n r k.nodes u v → ¬Trapped (g.Counts n r k.nodes) v → order.idxOf u < order.idxOf v := by
  intro g order
  have hg := n.closed_dependencies r
  have hnodes := DependencyGraph.isComponent_nodes hg hk
  have hnodup := DependencyGraph.nodup_nodes hg hk
  have hperm : order.Perm k.nodes := DependencyGraph.cycleOrder_perm k.nodes
  have hcounts : g.Counts n r k.nodes = fun u v => (u, v) ∈ g.countedWires n r (k.nodes.filter g.isBlock) := by
    funext u v
    exact propext DependencyGraph.counts_iff
  rw [hcounts]
  obtain ⟨free, trapped, heq, hsublist, htrapped, hsources⟩ :=
    exists_freeOrder_eq (g.countedWires n r (k.nodes.filter g.isBlock)) (k.nodes.filter g.isBlock) fun v _ hv => by
      obtain ⟨u, hu, hwire⟩ := hv.exists_source
      exact ⟨u, (DependencyGraph.mem_countedWires.1 hwire).2.1, hu, hwire⟩
  have horder : order = free ++ trapped ++ k.nodes.filter fun u => !g.isBlock u := by
    show wireOrder _ _ ++ _ = _
    rw [DependencyGraph.wireOrder_countedWires (hnodup.filter _), heq]
  have hblocks : ∀ u ∈ free ++ trapped, u ∈ k.nodes.filter g.isBlock := fun u hu =>
    (freeOrder_perm _ _).mem_iff.1 (heq ▸ hu)
  refine ⟨hperm, ⟨free, trapped, _, horder, fun u hu => (List.mem_filter.1 (hblocks u hu)).2, fun u hu => ?_, fun u hu => ?_, ?_⟩, ?_⟩
  · simpa using (List.mem_filter.1 hu).2
  · exact htrapped u (hblocks u hu)
  · exact hnodes.ascending.sublist (hsublist.trans List.filter_sublist)
  · intro u v hwire hloose
    obtain ⟨-, hu, hv, -⟩ := DependencyGraph.mem_countedWires.1 hwire
    have hfree : v ∈ free := by
      have hmem : v ∈ free ++ trapped := heq ▸ (freeOrder_perm _ _).mem_iff.2 hv
      exact (List.mem_append.1 hmem).resolve_right fun hmem => hloose ((htrapped v hv).1 hmem)
    obtain ⟨before, after, hsplit⟩ := List.append_of_mem hfree
    have hbefore := hsources before v after hsplit u hu hwire
    rw [hsplit, List.append_assoc, List.append_assoc, List.cons_append] at horder
    exact idxOf_lt_idxOf (hperm.nodup_iff.2 hnodup) horder hbefore

/-- Two loops that share a block, one of them through a delay that feeds the block by two wires. The delay also publishes to a bus that
the other loop listens to. -/
def Normalized.crossedLoops : Normalized where
  blocks := [⟨"a", "Add", {}, {}⟩, ⟨"b", "Sin", {}, {}⟩, ⟨"d", "Delay", {}, {}⟩]
  buses := [{ id := "k", type := "Signal<float>" }]
  edges := [{ id := "e1", source := .port "a" "out", target := .port "b" "in" },
    { id := "e2", source := .port "b" "out", target := .port "a" "a" },
    { id := "e3", source := .port "a" "out", target := .port "d" "in" },
    { id := "e4", source := .port "d" "out", target := .port "a" "a" },
    { id := "e5", source := .port "d" "out", target := .port "a" "b" },
    { id := "e6", source := .port "d" "out", target := .bus "k" },
    { id := "e7", source := .bus "k", target := .port "b" "in" }]
  settings := {}
  defaults := []

/-- All nodes are in one component. -/
theorem Normalized.cycleOrder_crossedLoops :
    (∃ k ∈ ((crossedLoops.dependencies .builtin).condense crossedLoops .builtin).components, k.nodes = [0, 1, 2, 3])
      ∧ (crossedLoops.dependencies .builtin).cycleOrder crossedLoops .builtin [0, 1, 2, 3] = [2, 0, 1, 3] := by
  decide +kernel

/-- The delay comes first, since no wire into it counts. The other two blocks trap each other, and the bus that one of them listens to
comes last. -/
theorem cycleOrder_along_counted_wires_crossedLoops :
    let g := Normalized.crossedLoops.dependencies .builtin
    let order := g.cycleOrder .crossedLoops .builtin [0, 1, 2, 3]
    order = [2, 0, 1, 3] ∧ order.Perm [0, 1, 2, 3]
      ∧ (∃ free trapped buses, order = free ++ trapped ++ buses
        ∧ (∀ u ∈ free ++ trapped, g.isBlock u = true) ∧ (∀ u ∈ buses, g.isBlock u = false)
        ∧ (∀ u ∈ free ++ trapped, u ∈ trapped ↔ Trapped (g.Counts .crossedLoops .builtin [0, 1, 2, 3]) u) ∧ trapped.Pairwise (· < ·))
      ∧ ∀ u v, g.Counts .crossedLoops .builtin [0, 1, 2, 3] u v → ¬Trapped (g.Counts .crossedLoops .builtin [0, 1, 2, 3]) v →
        order.idxOf u < order.idxOf v := by
  obtain ⟨⟨k, hk, hnodes⟩, horder⟩ := Normalized.cycleOrder_crossedLoops
  exact ⟨horder, hnodes ▸ cycleOrder_along_counted_wires .crossedLoops .builtin hk⟩

end PatchGraph
