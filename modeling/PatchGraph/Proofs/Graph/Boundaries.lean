import Mathlib.Data.List.Chain
import PatchGraph.Graph.Order
import PatchGraph.Proofs.Graph.Components

/-!
# Cycles and state boundaries

A cycle is a closed walk along the edges of the dependency graph. A component is free of cycles exactly if it is a single node without
a loop. The check of cycles looks at a component as a whole: it has nothing to say exactly if each cycle can be left to a state boundary
and entered again from there (`cycleDiagnostics_eq_nil_iff`). The boundary need not be on the cycle itself: two loops that share a block
pass if one of them runs through a boundary (`cycle_without_boundary_twinLoop`).
-/

namespace PatchGraph

namespace Digraph

open Relation

/-- A closed walk: each node is a successor of the one before, and the first is a successor of the last. -/
def IsCycle (g : Digraph) : List Nat → Prop
  | [] => False
  | u :: us => (u :: us ++ [u]).IsChain fun v w => w ∈ g.successors v

variable {g : Digraph}

theorem IsCycle.ne_nil {us : List Nat} (h : g.IsCycle us) : us ≠ [] := by
  rintro rfl
  exact h

/-- All nodes of a cycle reach each other. -/
theorem IsCycle.connected {us : List Nat} (h : g.IsCycle us) {u v : Nat} (hu : u ∈ us) (hv : v ∈ us) : g.Connected u v := by
  cases us with
  | nil => exact absurd hu List.not_mem_nil
  | cons w ws =>
    have hto : ∀ x ∈ w :: ws ++ [w], g.Reaches w x :=
      List.IsChain.induction _ _ h (fun _ _ hstep hx => hx.trans (.edge hstep)) fun _ => .refl w
    have hfrom : ∀ x ∈ w :: ws ++ [w], g.Reaches x w := by
      refine List.IsChain.backwards_induction _ _ h (fun _ _ hstep hx => (Reaches.edge hstep).trans hx) fun _ => ?_
      rw [List.getLast_append_singleton]
      exact .refl w
    have hu := List.mem_append_left [w] hu
    have hv := List.mem_append_left [w] hv
    exact ⟨(hfrom u hu).trans (hto v hv), (hfrom v hv).trans (hto u hu)⟩

/-- An edge leads from each node of a cycle to a node of the cycle. -/
theorem IsCycle.exists_successor {us : List Nat} (h : g.IsCycle us) {u : Nat} (hu : u ∈ us) : ∃ v ∈ us, v ∈ g.successors u := by
  cases us with
  | nil => exact absurd hu List.not_mem_nil
  | cons w ws =>
    obtain ⟨before, after, hsplit⟩ := List.append_of_mem hu
    have hchain : (before ++ u :: (after ++ [w])).IsChain fun v w => w ∈ g.successors v := by
      have h : (w :: ws ++ [w]).IsChain fun v w => w ∈ g.successors v := h
      rw [hsplit] at h
      simpa using h
    have hnext := (List.isChain_append.1 hchain).2.1
    rw [hsplit]
    cases after with
    | nil => exact ⟨w, hsplit ▸ List.mem_cons_self .., (List.isChain_cons_cons.1 hnext).1⟩
    | cons v vs => exact ⟨v, by simp, (List.isChain_cons_cons.1 hnext).1⟩

/-- The nodes of a cycle are nodes of the graph. -/
theorem IsCycle.lt_size (hg : g.Closed) {us : List Nat} (h : g.IsCycle us) {u : Nat} (hu : u ∈ us) : u < g.size := by
  cases us with
  | nil => exact absurd hu List.not_mem_nil
  | cons w ws =>
    obtain ⟨v, hv, hedge⟩ := h.exists_successor (List.mem_cons_self ..)
    rcases ReflTransGen.cases_tail (h.connected hv hu).1 with rfl | ⟨x, -, hx⟩
    · exact hg w _ hedge
    · exact hg x u hx

/-- A walk from a node to another, along edges that all lead to nodes of some kind. -/
theorem exists_walk_of_transGen {R : Nat → Nat → Prop} {P : Nat → Prop} (hP : ∀ u v, R u v → P v) {u v : Nat}
    (h : TransGen R u v) : ∃ us, (u :: us ++ [v]).IsChain R ∧ ∀ x ∈ us ++ [v], P x := by
  induction h using TransGen.head_induction_on with
  | @single u h => exact ⟨[], by simpa using h, by simpa using hP u v h⟩
  | @head u w h _ ih =>
    obtain ⟨us, hwalk, hus⟩ := ih
    exact ⟨w :: us, List.isChain_cons_cons.2 ⟨h, hwalk⟩, List.forall_mem_cons.2 ⟨hP u w h, hus⟩⟩

/-- A node that some edges lead back to is on a cycle of such edges. -/
theorem exists_isCycle_of_transGen {R : Nat → Nat → Prop} {P : Nat → Prop} (hP : ∀ u v, R u v → P v)
    (hR : ∀ u v, R u v → v ∈ g.successors u) {u : Nat} (h : TransGen R u u) :
    ∃ us, g.IsCycle (u :: us) ∧ ∀ x ∈ u :: us, P x := by
  obtain ⟨us, hwalk, hus⟩ := exists_walk_of_transGen hP h
  refine ⟨us, hwalk.imp fun v w => hR v w, fun x hx => hus x ?_⟩
  rcases List.mem_cons.1 hx with rfl | hx
  · exact List.mem_append_right us (List.mem_singleton_self x)
  · exact List.mem_append_left [u] hx

/-- Of two nodes that reach each other, each is on a cycle. -/
theorem Connected.exists_isCycle {u v : Nat} (h : g.Connected u v) (hne : u ≠ v) : ∃ us, g.IsCycle (u :: us) := by
  have hforth : TransGen (fun x y => y ∈ g.successors x) u v := by
    rcases reflTransGen_iff_eq_or_transGen.1 h.1 with heq | hgen
    · exact absurd heq.symm hne
    · exact hgen
  obtain ⟨us, hus, -⟩ := exists_isCycle_of_transGen (P := fun _ => True) (fun _ _ _ => trivial) (fun _ _ => id)
    (hforth.trans_left h.2)
  exact ⟨us, hus⟩

end Digraph

/-! ## Components with a cycle -/

namespace DependencyGraph

variable {g : DependencyGraph} {n : Normalized} {r : Registry}

/-- There is a state boundary among nodes exactly if one of them is one. -/
theorem hasBoundary_iff {us : List Nat} : g.hasBoundary n r us = true ↔ ∃ u ∈ us, g.isBoundary n r u = true := by
  simp only [hasBoundary, blocksOf, List.any_eq_true, List.mem_filterMap]
  constructor
  · rintro ⟨b, ⟨u, hu, hb⟩, hboundary⟩
    refine ⟨u, hu, ?_⟩
    unfold isBoundary
    cases hnode : g.node u with
    | block c =>
      rw [hnode] at hb
      obtain rfl := Option.some.inj hb
      exact hboundary
    | bus c =>
      rw [hnode] at hb
      cases hb
  · rintro ⟨u, hu, hboundary⟩
    unfold isBoundary at hboundary
    split at hboundary
    · rename_i b hnode
      exact ⟨b, ⟨u, hu, by rw [hnode]⟩, hboundary⟩
    · cases hboundary

theorem trivial_of_mem_condense {k : Component} (hk : k ∈ (g.condense n r).components) : k.trivial = g.isTrivial k.nodes := by
  obtain ⟨us, -, rfl⟩ := List.mem_map.1 hk
  rfl

theorem legal_of_mem_condense {k : Component} (hk : k ∈ (g.condense n r).components) :
    k.legal = (k.trivial || g.hasBoundary n r k.nodes) := by
  obtain ⟨us, -, rfl⟩ := List.mem_map.1 hk
  rfl

/-- A component is not trivial exactly if a cycle runs through one of its nodes. -/
theorem trivial_eq_false_iff (hg : g.graph.Closed) {k : Component} (hk : k ∈ (g.condense n r).components) :
    k.trivial = false ↔ ∃ u ∈ k.nodes, ∃ us, g.graph.IsCycle (u :: us) := by
  have hcomponent := isComponent_nodes hg hk
  rw [trivial_of_mem_condense hk]
  constructor
  · intro htrivial
    match hnodes : k.nodes with
    | [] => exact absurd hnodes hcomponent.ne_nil
    | [u] =>
      rw [hnodes] at htrivial
      have hloop : u ∈ g.graph.successors u := by simpa [isTrivial, Digraph.hasLoop] using htrivial
      exact ⟨u, List.mem_singleton_self u, [], List.isChain_pair.2 hloop⟩
    | u :: v :: rest =>
      have hascending := hcomponent.ascending
      have hmem := hcomponent.mem_iff
      rw [hnodes] at hascending hmem
      have hne : u ≠ v := Nat.ne_of_lt (List.rel_of_pairwise_cons hascending (List.mem_cons_self ..))
      have hconnected := (hmem u (List.mem_cons_self ..) v).1 (by simp)
      exact ⟨u, List.mem_cons_self .., hconnected.exists_isCycle hne⟩
  · rintro ⟨u, hu, us, hcycle⟩
    unfold isTrivial
    split
    · rename_i w hnodes
      -- the only node of the component is the next one on the cycle, too
      obtain ⟨v, hv, hedge⟩ := hcycle.exists_successor (List.mem_cons_self ..)
      have hvk : v ∈ k.nodes := (hcomponent.mem_iff u hu v).2 (hcycle.connected (List.mem_cons_self ..) hv)
      rw [hnodes] at hu hvk
      obtain rfl := List.mem_singleton.1 hu
      obtain rfl := List.mem_singleton.1 hvk
      simpa [Digraph.hasLoop] using hedge
    · rfl

/-- There is nothing wrong with the cycles exactly if every component that has one has a state boundary. -/
theorem cycleDiagnostics_eq_nil : g.cycleDiagnostics n r = [] ↔
    ∀ k ∈ (g.condense n r).components, k.trivial = false → ∃ d ∈ k.nodes, g.isBoundary n r d = true := by
  rw [cycleDiagnostics, List.map_eq_nil_iff, List.filter_eq_nil_iff]
  refine forall₂_congr fun k hk => ?_
  rw [legal_of_mem_condense hk, Bool.not_eq_true, Bool.not_eq_false', Bool.or_eq_true, hasBoundary_iff]
  cases k.trivial <;> simp

end DependencyGraph

/-! ## What the check of cycles guarantees -/

namespace Normalized

/-- Nothing is wrong with the cycles of a patch exactly if for each closed walk there is a state boundary that all its nodes reach and
are reached from. -/
theorem cycleDiagnostics_eq_nil_iff (n : Normalized) (r : Registry) :
    (n.dependencies r).cycleDiagnostics n r = [] ↔
      ∀ us, (n.dependencies r).graph.IsCycle us →
        ∃ d, (n.dependencies r).isBoundary n r d = true ∧ ∀ u ∈ us, (n.dependencies r).graph.Connected u d := by
  have hg := n.closed_dependencies r
  rw [DependencyGraph.cycleDiagnostics_eq_nil]
  constructor
  · intro hlegal us hcycle
    obtain ⟨u, us, rfl⟩ := List.exists_cons_of_ne_nil hcycle.ne_nil
    have hu : u ∈ u :: us := List.mem_cons_self ..
    obtain ⟨k, hk, huk⟩ := DependencyGraph.exists_component_at (n := n) (r := r) hg (hcycle.lt_size hg hu)
    have hk := List.mem_of_getElem? hk
    obtain ⟨d, hd, hboundary⟩ := hlegal k hk ((DependencyGraph.trivial_eq_false_iff hg hk).2 ⟨u, huk, us, hcycle⟩)
    have hud := ((DependencyGraph.isComponent_nodes hg hk).mem_iff u huk d).1 hd
    exact ⟨d, hboundary, fun v hv => (hcycle.connected hv hu).trans hud⟩
  · intro hcycles k hk htrivial
    obtain ⟨u, huk, us, hcycle⟩ := (DependencyGraph.trivial_eq_false_iff hg hk).1 htrivial
    obtain ⟨d, hboundary, hconnected⟩ := hcycles _ hcycle
    exact ⟨d, ((DependencyGraph.isComponent_nodes hg hk).mem_iff u huk d).2 (hconnected u (List.mem_cons_self ..)), hboundary⟩

/-- Two loops that share a block; only one of them runs through a state boundary. -/
def twinLoop : Normalized where
  blocks := [⟨"a", "Add", {}, {}⟩, ⟨"b", "Sin", {}, {}⟩, ⟨"d", "Delay", {}, {}⟩, ⟨"t", "InfiniteTimeRoot", {}, {}⟩]
  buses := []
  edges := [{ id := "e1", source := .port "a" "out", target := .port "b" "in" },
    { id := "e2", source := .port "b" "out", target := .port "a" "a" },
    { id := "e3", source := .port "a" "out", target := .port "d" "in" },
    { id := "e4", source := .port "d" "out", target := .port "a" "b" }]
  settings := {}
  defaults := []

/-- Nothing is wrong with the two loops, although the one through both `a` and `b` never meets a state boundary. -/
theorem cycle_without_boundary_twinLoop :
    (twinLoop.dependencies .builtin).cycleDiagnostics twinLoop .builtin = [] ∧
    (twinLoop.dependencies .builtin).graph.IsCycle [0, 1] ∧
    ∀ u ∈ [0, 1], (twinLoop.dependencies .builtin).isBoundary twinLoop .builtin u = false := by
  unfold Digraph.IsCycle
  decide +kernel

end Normalized

end PatchGraph
