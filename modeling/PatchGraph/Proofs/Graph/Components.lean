import Mathlib.Data.List.Nodup
import PatchGraph.Graph.Cycles
import PatchGraph.Proofs.Graph.Arrows
import PatchGraph.Registry.Builtin

/-!
# The components of a dependency graph

The components that the search finds are the classes of nodes that reach each other (`condense_connected`). They come in an order in
which an edge never leads to a later one, so the order of evaluation, which is the opposite one, puts a node after all it
depends on (`order_dependencies_first`).
-/

namespace PatchGraph

namespace Digraph

/-! ## Components -/

variable {g : Digraph}

/-- Every node is in exactly one component, and once. -/
theorem components_flatten_perm (hg : g.Closed) : g.components.flatten.Perm (List.range g.size) := by
  obtain ⟨hrest, hmet⟩ := search_rested hg
  have hmem := hrest.sound.mem_iff
  have hnodup := hrest.sound.nodup
  rw [hrest.stack_eq, List.nil_append] at hnodup
  simp only [hrest.stack_eq, List.nil_append] at hmem
  refine (List.reverse_perm _).flatten.trans ?_
  rw [List.perm_ext_iff_of_nodup hnodup List.nodup_range]
  intro u
  rw [hmem, List.mem_range]
  exact ⟨fun h => h.1, fun h => ⟨h, hmet u h⟩⟩

/-- Whatever the search completes is a component. -/
theorem isComponent_of_mem_components (hg : g.Closed) {c : List Nat} (hc : c ∈ g.components) : IsComponent g c :=
  (search_rested hg).1.sound.complete.isComponent c (List.mem_reverse.1 hc)

/-- Among complete components, each is followed by all that its edges lead to. -/
theorem Complete.edge_after {cs : List (List Nat)} (h : Complete g cs) {i : Nat} {c : List Nat} (hc : cs[i]? = some c)
    {u v : Nat} (hu : u ∈ c) (hv : v ∈ g.successors u) : ∃ j d, i ≤ j ∧ cs[j]? = some d ∧ v ∈ d := by
  induction h generalizing i with
  | nil => simp at hc
  | @cons c' cs _ hout _ ih =>
    cases i with
    | zero =>
      obtain rfl : c' = c := by simpa using hc
      rcases hout u hu v hv with hv | hv
      · exact ⟨0, c', Nat.le_refl _, rfl, hv⟩
      · obtain ⟨d, hd, hvd⟩ := List.mem_flatten.1 hv
        obtain ⟨j, hj⟩ := List.getElem?_of_mem hd
        exact ⟨j + 1, d, Nat.zero_le _, hj, hvd⟩
    | succ i =>
      obtain ⟨j, d, hij, hd, hvd⟩ := ih (by simpa using hc)
      exact ⟨j + 1, d, Nat.succ_le_succ hij, hd, hvd⟩

/-- An edge never leads to a later component. -/
theorem components_edge (hg : g.Closed) {i : Nat} {c : List Nat} (hc : g.components[i]? = some c) {u v : Nat} (hu : u ∈ c)
    (hv : v ∈ g.successors u) : ∃ j d, j ≤ i ∧ g.components[j]? = some d ∧ v ∈ d := by
  obtain ⟨hlt, -⟩ := List.getElem?_eq_some_iff.1 hc
  rw [components, List.length_reverse] at hlt
  rw [components, List.getElem?_reverse hlt] at hc
  obtain ⟨j, d, hij, hd, hvd⟩ := (search_rested hg).1.sound.complete.edge_after hc hu hv
  obtain ⟨hjlt, -⟩ := List.getElem?_eq_some_iff.1 hd
  refine ⟨g.search.components.length - 1 - j, d, by omega, ?_, hvd⟩
  rw [components, List.getElem?_reverse (by omega), ← hd]
  congr 1
  omega

end Digraph

/-! ## Places of components -/

/-- In a list of disjoint lists, a member of one of them finds it. -/
theorem mem_iff_findIdx_eq {cs : List (List Nat)} (h : cs.flatten.Nodup) {i : Nat} {c : List Nat} (hc : cs[i]? = some c)
    (u : Nat) : u ∈ c ↔ u ∈ cs.flatten ∧ cs.findIdx (·.contains u) = i := by
  obtain ⟨hi, rfl⟩ := List.getElem?_eq_some_iff.1 hc
  constructor
  · intro hu
    refine ⟨List.mem_flatten.2 ⟨_, List.getElem_mem hi, hu⟩, (List.findIdx_eq hi).2 ⟨List.contains_iff_mem.2 hu, ?_⟩⟩
    intro j hj
    have hdisj := List.pairwise_iff_getElem.1 (List.nodup_flatten.1 h).2 j i (by omega) hi hj
    exact Bool.eq_false_iff.2 fun hmem => hdisj (List.contains_iff_mem.1 hmem) hu
  · rintro ⟨-, rfl⟩
    exact List.contains_iff_mem.1 List.findIdx_getElem

/-- The last number comes first when numbers are counted down. -/
theorem idxOf_reverse_range {m i : Nat} (h : i < m) : (List.range m).reverse.idxOf i = m - 1 - i := by
  have hget : (List.range m).reverse[m - 1 - i]? = some i := by
    rw [List.getElem?_reverse (by simp; omega), List.length_range, List.getElem?_range (by omega)]
    congr 1
    omega
  obtain ⟨hlt, hval⟩ := List.getElem?_eq_some_iff.1 hget
  have hnodup : (List.range m).reverse.Nodup := List.nodup_reverse.2 List.nodup_range
  calc (List.range m).reverse.idxOf i = (List.range m).reverse.idxOf ((List.range m).reverse[m - 1 - i]) := by rw [hval]
    _ = m - 1 - i := hnodup.idxOf_getElem _ hlt

namespace DependencyGraph

variable {g : DependencyGraph} {n : Normalized} {r : Registry}

/-- The components keep the nodes that the search found. -/
theorem nodes_condense : (g.condense n r).components.map (·.nodes) = g.graph.components := by
  simp [condense, component, Function.comp_def]

/-- The place of a node is that of the first component that holds it. -/
theorem placeOf_condense (u : Nat) : (g.condense n r).placeOf u = g.graph.components.findIdx (·.contains u) := by
  rw [← nodes_condense (n := n) (r := r), List.findIdx_map]
  rfl

/-- A node is in the component at a place if that is its place. -/
theorem mem_nodes_iff_placeOf (hg : g.graph.Closed) {i : Nat} {k : Component} (hk : (g.condense n r).components[i]? = some k)
    (u : Nat) : u ∈ k.nodes ↔ u < g.graph.size ∧ (g.condense n r).placeOf u = i := by
  have hperm := Digraph.components_flatten_perm hg
  have hk' : g.graph.components[i]? = some k.nodes := by
    rw [← nodes_condense (n := n) (r := r), List.getElem?_map, hk]
    rfl
  rw [mem_iff_findIdx_eq (hperm.nodup_iff.2 List.nodup_range) hk', hperm.mem_iff, List.mem_range, placeOf_condense]

/-- The place of a node is the place of a component that it is in. -/
theorem exists_component_at (hg : g.graph.Closed) {u : Nat} (hu : u < g.graph.size) :
    ∃ k, (g.condense n r).components[(g.condense n r).placeOf u]? = some k ∧ u ∈ k.nodes := by
  have hmem := (Digraph.components_flatten_perm hg).mem_iff.2 (List.mem_range.2 hu)
  rw [← nodes_condense (n := n) (r := r), List.mem_flatten] at hmem
  obtain ⟨us, hus, huu⟩ := hmem
  obtain ⟨k, hk, rfl⟩ := List.mem_map.1 hus
  obtain ⟨i, hi⟩ := List.getElem?_of_mem hk
  obtain ⟨-, rfl⟩ := (mem_nodes_iff_placeOf hg hi u).1 huu
  exact ⟨k, hi, huu⟩

/-- The nodes of a component are a class of nodes that reach each other. -/
theorem isComponent_nodes (hg : g.graph.Closed) {k : Component} (hk : k ∈ (g.condense n r).components) :
    Digraph.IsComponent g.graph k.nodes := by
  apply Digraph.isComponent_of_mem_components hg
  rw [← nodes_condense (n := n) (r := r)]
  exact List.mem_map_of_mem hk

/-- Two nodes have the same place if they reach each other. -/
theorem placeOf_eq_iff (hg : g.graph.Closed) {u v : Nat} (hu : u < g.graph.size) (hv : v < g.graph.size) :
    (g.condense n r).placeOf u = (g.condense n r).placeOf v ↔ g.graph.Connected u v := by
  obtain ⟨k, hk, huk⟩ := exists_component_at (n := n) (r := r) hg hu
  rw [← (isComponent_nodes hg (List.mem_of_getElem? hk)).mem_iff u huk v, mem_nodes_iff_placeOf hg hk]
  exact ⟨fun h => ⟨hv, h.symm⟩, fun h => h.2.symm⟩

/-- An edge never leads to a component at a later place. -/
theorem placeOf_le_of_edge (hg : g.graph.Closed) {u v : Nat} (hu : u < g.graph.size) (hv : v ∈ g.graph.successors u) :
    (g.condense n r).placeOf v ≤ (g.condense n r).placeOf u := by
  obtain ⟨k, hk, huk⟩ := exists_component_at (n := n) (r := r) hg hu
  have hk' : g.graph.components[(g.condense n r).placeOf u]? = some k.nodes := by
    rw [← nodes_condense (n := n) (r := r), List.getElem?_map, hk]
    rfl
  obtain ⟨j, d, hj, hd, hvd⟩ := Digraph.components_edge hg hk' huk hv
  have hperm := Digraph.components_flatten_perm hg
  have hplace := ((mem_iff_findIdx_eq (hperm.nodup_iff.2 List.nodup_range) hd v).1 hvd).2
  rw [placeOf_condense v, hplace]
  exact hj

end DependencyGraph

/-! ## The graph of a patch -/

namespace Normalized

/-- The components of a patch's dependency graph are its strongly connected components: each node is in exactly one of them and once,
each is a non-empty ascending list, the place of a node is that of the component it is in, and two nodes are in one component exactly
if each reaches the other. -/
theorem condense_connected (n : Normalized) (r : Registry) :
    (((n.dependencies r).condense n r).components.flatMap (·.nodes)).Perm (List.range (n.dependencies r).size) ∧
    (∀ k ∈ ((n.dependencies r).condense n r).components, k.nodes ≠ [] ∧ k.nodes.Pairwise (· < ·)) ∧
    (∀ u < (n.dependencies r).size, ∃ k,
      ((n.dependencies r).condense n r).components[((n.dependencies r).condense n r).placeOf u]? = some k ∧ u ∈ k.nodes) ∧
    (∀ u < (n.dependencies r).size, ∀ v < (n.dependencies r).size,
      (∃ k ∈ ((n.dependencies r).condense n r).components, u ∈ k.nodes ∧ v ∈ k.nodes) ↔
        (n.dependencies r).graph.Reaches u v ∧ (n.dependencies r).graph.Reaches v u) := by
  have hg := n.closed_dependencies r
  have hsize := n.size_dependencies r
  refine ⟨?_, fun k hk => ?_, fun u hu => ?_, fun u hu v hv => ⟨?_, fun h => ?_⟩⟩
  · rw [List.flatMap_def, DependencyGraph.nodes_condense, ← hsize]
    exact Digraph.components_flatten_perm hg
  · have hc := DependencyGraph.isComponent_nodes hg hk
    exact ⟨hc.ne_nil, hc.ascending⟩
  · exact DependencyGraph.exists_component_at hg (hsize ▸ hu)
  · rintro ⟨k, hk, huk, hvk⟩
    exact ((DependencyGraph.isComponent_nodes hg hk).mem_iff u huk v).1 hvk
  · obtain ⟨k, hk, huk⟩ := DependencyGraph.exists_component_at (n := n) (r := r) hg (hsize ▸ hu)
    have hmem := List.mem_of_getElem? hk
    exact ⟨k, hmem, huk, ((DependencyGraph.isComponent_nodes hg hmem).mem_iff u huk v).2 h⟩

/-- A loop of a block and a state boundary, fed by a time root. -/
def fedLoop : Normalized where
  blocks := [⟨"a", "Add", {}, {}⟩, ⟨"d", "Delay", {}, {}⟩, ⟨"t", "InfiniteTimeRoot", {}, {}⟩]
  buses := []
  edges := [{ id := "back", source := .port "d" "out", target := .port "a" "a" },
    { id := "feed", source := .port "t" "time", target := .port "a" "b" },
    { id := "loop", source := .port "a" "out", target := .port "d" "in" }]
  settings := {}
  defaults := []

theorem size_fedLoop : (fedLoop.dependencies .builtin).size = 3 := rfl

theorem graph_fedLoop : (fedLoop.dependencies .builtin).graph = ⟨#[[1], [0], [0]]⟩ := by decide +kernel

/-- No edge leaves the loop. -/
theorem not_reaches_fedLoop : ¬(fedLoop.dependencies .builtin).graph.Reaches 0 2 := by
  rw [graph_fedLoop]
  intro h
  have hclosed : ∀ u ∈ [0, 1], ∀ v ∈ (⟨#[[1], [0], [0]]⟩ : Digraph).successors u, v ∈ [0, 1] := by decide
  exact absurd (h.mem_of_closed hclosed (by decide)) (by decide)

/-- The two blocks of the loop are in one component, and the time root is not in it. -/
theorem condense_connected_fedLoop :
    (∃ k ∈ ((fedLoop.dependencies .builtin).condense fedLoop .builtin).components, 0 ∈ k.nodes ∧ 1 ∈ k.nodes) ∧
    ¬∃ k ∈ ((fedLoop.dependencies .builtin).condense fedLoop .builtin).components, 0 ∈ k.nodes ∧ 2 ∈ k.nodes := by
  obtain ⟨-, -, -, hsame⟩ := condense_connected fedLoop .builtin
  rw [size_fedLoop] at hsame
  refine ⟨(hsame 0 (by decide) 1 (by decide)).2 ⟨.edge ?_, .edge ?_⟩, fun h => ?_⟩
  · rw [graph_fedLoop]
    decide
  · rw [graph_fedLoop]
    decide
  · exact not_reaches_fedLoop ((hsame 0 (by decide) 2 (by decide)).1 h).1

/-- The order of components is a permutation of their places that puts dependencies first: along an edge between two components, the
place of the source comes before the place of the target. -/
theorem order_dependencies_first (n : Normalized) (r : Registry) :
    (((n.dependencies r).condense n r).order).Perm (List.range ((n.dependencies r).condense n r).components.length) ∧
    ∀ u v, v ∈ (n.dependencies r).graph.successors u →
      ((n.dependencies r).condense n r).placeOf u ≠ ((n.dependencies r).condense n r).placeOf v →
      ((n.dependencies r).condense n r).order.idxOf (((n.dependencies r).condense n r).placeOf u) <
        ((n.dependencies r).condense n r).order.idxOf (((n.dependencies r).condense n r).placeOf v) := by
  have hg := n.closed_dependencies r
  refine ⟨List.reverse_perm _, fun u v hv hne => ?_⟩
  have hu : u < (n.dependencies r).graph.size := by
    rw [size_dependencies]
    exact (Digraph.mem_successors_ofArrows.1 hv).1
  have hle := DependencyGraph.placeOf_le_of_edge (n := n) (r := r) hg hu hv
  obtain ⟨k, hk, -⟩ := DependencyGraph.exists_component_at (n := n) (r := r) hg hu
  obtain ⟨hlt, -⟩ := List.getElem?_eq_some_iff.1 hk
  rw [Condensation.order, idxOf_reverse_range hlt, idxOf_reverse_range (Nat.lt_of_le_of_lt hle hlt)]
  omega

/-- The time root comes before the loop that it feeds. -/
theorem order_dependencies_first_fedLoop :
    ((fedLoop.dependencies .builtin).condense fedLoop .builtin).placeOf 2 ≠
      ((fedLoop.dependencies .builtin).condense fedLoop .builtin).placeOf 0 ∧
    ((fedLoop.dependencies .builtin).condense fedLoop .builtin).order.idxOf
        (((fedLoop.dependencies .builtin).condense fedLoop .builtin).placeOf 2) <
      ((fedLoop.dependencies .builtin).condense fedLoop .builtin).order.idxOf
        (((fedLoop.dependencies .builtin).condense fedLoop .builtin).placeOf 0) := by
  have hne : ((fedLoop.dependencies .builtin).condense fedLoop .builtin).placeOf 2 ≠
      ((fedLoop.dependencies .builtin).condense fedLoop .builtin).placeOf 0 := by
    have hsize := (size_dependencies fedLoop .builtin).trans size_fedLoop
    rw [Ne, DependencyGraph.placeOf_eq_iff (closed_dependencies _ _) (by rw [hsize]; decide) (by rw [hsize]; decide)]
    exact fun h => not_reaches_fedLoop h.2
  refine ⟨hne, (order_dependencies_first fedLoop .builtin).2 2 0 ?_ hne⟩
  rw [graph_fedLoop]
  decide

end Normalized

end PatchGraph
