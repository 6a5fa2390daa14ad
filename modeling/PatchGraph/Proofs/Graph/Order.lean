import Mathlib.Data.Fintype.Order
import Mathlib.Order.WellFounded
import PatchGraph.Proofs.Graph.Boundaries
import PatchGraph.Proofs.Graph.Links

/-!
# The order of evaluation follows the links

A node is placed after all it depends on, as far as the order looks at the dependency. Between components it always does. Inside a cycle
it looks at the wires that do not lead to a state boundary. The wires are counted, and the number that is kept with a node is always that
of the wires from nodes that are left (`order_ofRemaining`); so the order is found by taking the first free node again and again
(`wireOrder_eq_freeOrder`). If every cycle meets a boundary, the wires that count form no cycle, so every block gets free
(`pairwise_freeOrder`). The order does not look at buses: they come after all blocks of their cycle, also after those that listen to
them.
-/

namespace PatchGraph

open Relation

/-! ## Taking free nodes -/

/-- Whether no wire leads to a node from a remaining node. -/
def isFree (wires : List (Nat × Nat)) (remaining : List Nat) (u : Nat) : Bool :=
  !wires.any fun w => w.2 = u && remaining.contains w.1

/-- Take the first free node again and again; the nodes that never get free follow as they are. -/
def freeOrder (wires : List (Nat × Nat)) (remaining : List Nat) : List Nat :=
  match _h : remaining.find? (isFree wires remaining) with
  | none => remaining
  | some u => u :: freeOrder wires (remaining.erase u)
  termination_by remaining.length
  decreasing_by
    have hu := List.mem_of_find?_eq_some _h
    rw [List.length_erase_of_mem hu]
    exact Nat.sub_lt (List.length_pos_of_mem hu) Nat.one_pos

/-- The order holds the same nodes. -/
theorem freeOrder_perm (wires : List (Nat × Nat)) (remaining : List Nat) : (freeOrder wires remaining).Perm remaining := by
  fun_induction freeOrder wires remaining with
  | case1 remaining _ => exact .refl _
  | case2 remaining u h ih => exact (ih.cons u).trans (List.perm_cons_erase (List.mem_of_find?_eq_some h)).symm

/-- A node is free if no wire leads to it from the remaining ones. -/
theorem isFree_iff {wires : List (Nat × Nat)} {remaining : List Nat} {u : Nat} :
    isFree wires remaining u = true ↔ ∀ v ∈ remaining, (v, u) ∉ wires := by
  simp only [isFree, Bool.not_eq_true', List.any_eq_false, Bool.and_eq_true, decide_eq_true_eq, List.contains_iff_mem, not_and]
  constructor
  · intro h v hv hmem
    exact h (v, u) hmem rfl hv
  · rintro h ⟨v, w⟩ hmem rfl hv
    exact h v hv hmem

/-- A node that can be reached from a node on a cycle of wires, or is such a node. -/
def Trapped (W : Nat → Nat → Prop) (v : Nat) : Prop := ∃ u, TransGen W u u ∧ ReflTransGen W u v

/-- A wire from a trapped node leads to a trapped node. -/
theorem Trapped.of_wire {W : Nat → Nat → Prop} {u v : Nat} (hu : Trapped W u) (hwire : W u v) : Trapped W v := by
  obtain ⟨x, hcycle, hreach⟩ := hu
  exact ⟨x, hcycle, hreach.tail hwire⟩

/-- A node on a cycle is trapped. -/
theorem Trapped.of_transGen {W : Nat → Nat → Prop} {u : Nat} (h : TransGen W u u) : Trapped W u := ⟨u, h, .refl⟩

/-- A wire leads to each trapped node from a trapped node. -/
theorem Trapped.exists_source {W : Nat → Nat → Prop} {v : Nat} (hv : Trapped W v) : ∃ u, Trapped W u ∧ W u v := by
  obtain ⟨x, hcycle, hreach⟩ := hv
  rcases ReflTransGen.cases_tail hreach with rfl | ⟨u, hu, hwire⟩
  · obtain ⟨u, hu, hwire⟩ := TransGen.tail'_iff.1 hcycle
    exact ⟨u, ⟨v, hcycle, hu⟩, hwire⟩
  · exact ⟨u, ⟨x, hcycle, hu⟩, hwire⟩

/-- As long as a node remains that is not trapped, one of the remaining nodes is free. -/
theorem exists_isFree {wires : List (Nat × Nat)} {remaining : List Nat} {u : Nat} (hu : u ∈ remaining)
    (htrapped : ¬Trapped (fun u v => (u, v) ∈ wires) u) : ∃ u ∈ remaining, isFree wires remaining u = true := by
  let loose := { u // u ∈ remaining ∧ ¬Trapped (fun u v => (u, v) ∈ wires) u }
  let before (x y : loose) : Prop := TransGen (fun u v => (u, v) ∈ wires) x.1 y.1
  have : IsTrans _ before := ⟨fun _ _ _ => TransGen.trans⟩
  have : Std.Irrefl before := ⟨fun x hcycle => x.2.2 (.of_transGen hcycle)⟩
  have hfinite : Finite loose := (List.finite_toSet remaining).subset fun _ hx => hx.1
  obtain ⟨m, -, hmin⟩ := (Finite.wellFounded_of_trans_of_irrefl before).has_min Set.univ ⟨⟨u, hu, htrapped⟩, trivial⟩
  -- the source of a wire to a node that is not trapped is not trapped either
  refine ⟨m.1, m.2.1, isFree_iff.2 fun v hv hwire => ?_⟩
  exact hmin ⟨v, hv, fun htrapped => m.2.2 (htrapped.of_wire hwire)⟩ trivial (TransGen.single hwire)

/-- No wire leads back, if the wires form no cycle. -/
theorem pairwise_freeOrder {wires : List (Nat × Nat)} (hwires : ∀ u, ¬TransGen (fun u v => (u, v) ∈ wires) u u)
    (remaining : List Nat) : (freeOrder wires remaining).Pairwise fun v u => (u, v) ∉ wires := by
  fun_induction freeOrder wires remaining with
  | case1 remaining h =>
    obtain rfl : remaining = [] := by
      by_contra hne
      obtain ⟨u, hu⟩ := List.exists_mem_of_ne_nil remaining hne
      obtain ⟨v, hv, hfree⟩ := exists_isFree hu fun ⟨x, hcycle, _⟩ => hwires x hcycle
      exact List.find?_eq_none.1 h v hv hfree
    exact .nil
  | case2 remaining v h ih =>
    refine List.pairwise_cons.2 ⟨fun u hu => ?_, ih⟩
    have hu := List.mem_of_mem_erase ((freeOrder_perm wires _).mem_iff.1 hu)
    exact isFree_iff.1 (List.find?_some h) u hu

/-! ## Counting wires -/

namespace Pending

/-- The number of wires that lead to a node from a remaining node. -/
def degree (wires : List (Nat × Nat)) (remaining : List Nat) (u : Nat) : Nat :=
  wires.countP fun w => w.2 = u && remaining.contains w.1

/-- The remaining nodes, each with the wires that lead to it from another of them or itself. -/
def ofRemaining (wires : List (Nat × Nat)) (remaining : List Nat) : Pending :=
  remaining.map fun u => (u, degree wires remaining u)

variable {wires : List (Nat × Nat)} {remaining : List Nat}

/-- A node is free once the number of its wires is zero. -/
theorem degree_eq_zero {u : Nat} : degree wires remaining u = 0 ↔ isFree wires remaining u = true := by
  simp [degree, isFree, List.countP_eq_zero]

/-- Taking away wires one by one takes away as many from each node as lead to it. -/
theorem foldl_release (f : Nat → Nat) (nodes targets : List Nat) :
    targets.foldl release (nodes.map fun u => (u, f u)) = nodes.map fun u => (u, f u - targets.count u) := by
  induction targets generalizing f with
  | nil => rfl
  | cons v rest ih =>
    have hrelease : release (nodes.map fun u => (u, f u)) v = nodes.map fun u => (u, if u = v then f u - 1 else f u) := by
      simp [release]
    rw [List.foldl_cons, hrelease, ih]
    refine List.map_congr_left fun u _ => congrArg (Prod.mk u) ?_
    rw [List.count_cons]
    by_cases h : u = v
    · simp [h]
      omega
    · simp [h, Ne.symm h]

/-- The wires from a node that is placed are those that no longer come from a node that is left. -/
theorem degree_erase (hnodup : remaining.Nodup) {u : Nat} (hu : u ∈ remaining) (v : Nat) :
    degree wires remaining v - ((wires.filter (·.1 = u)).map (·.2)).count v = degree wires (remaining.erase u) v := by
  have hplaced : (wires.filter (·.1 = u)).countP (fun w => w.2 = v && remaining.contains w.1)
      = ((wires.filter (·.1 = u)).map (·.2)).count v := by
    rw [List.count, List.countP_map]
    refine List.countP_congr fun w hw => ?_
    obtain rfl := of_decide_eq_true (List.mem_filter.1 hw).2
    simp [hu]
  have hleft : (wires.filter fun w => !decide (w.1 = u)).countP (fun w => w.2 = v && remaining.contains w.1)
      = degree wires (remaining.erase u) v := by
    rw [List.countP_filter, degree]
    refine List.countP_congr fun w _ => ?_
    simp [hnodup.mem_erase_iff]
    tauto
  rw [degree, List.countP_eq_countP_filter_add wires _ (·.1 = u), hplaced, hleft, Nat.add_sub_cancel_left]

/-- Placing a node leaves the others with the wires between them. -/
theorem place_ofRemaining (hnodup : remaining.Nodup) {u : Nat} (hu : u ∈ remaining) :
    (ofRemaining wires remaining).place wires u = ofRemaining wires (remaining.erase u) := by
  have herase : (ofRemaining wires remaining).eraseP (·.1 = u)
      = (remaining.erase u).map fun v => (v, degree wires remaining v) := by
    rw [ofRemaining, List.eraseP_map, List.erase_eq_eraseP']
    rfl
  rw [place, herase, foldl_release]
  exact List.map_congr_left fun v _ => congrArg (Prod.mk v) (degree_erase hnodup hu v)

/-- Counting keeps the nodes in their order. -/
theorem nodes_ofRemaining (wires : List (Nat × Nat)) (remaining : List Nat) : (ofRemaining wires remaining).nodes = remaining := by
  simp [nodes, ofRemaining, Function.comp_def]

/-- The first node that no wire is left for is the first one that is free. -/
theorem find?_ofRemaining (wires : List (Nat × Nat)) (remaining : List Nat) :
    (ofRemaining wires remaining).find? (·.2 = 0)
      = (remaining.find? (isFree wires remaining)).map fun u => (u, degree wires remaining u) := by
  rw [ofRemaining, List.find?_map]
  congr 2
  funext u
  exact Bool.eq_iff_iff.2 (by simp [degree_eq_zero])

/-- With the numbers right at the start, they stay right, and free nodes are taken one after the other. -/
theorem order_ofRemaining (hnodup : remaining.Nodup) : (ofRemaining wires remaining).order wires = freeOrder wires remaining := by
  fun_induction freeOrder wires remaining with
  | case1 remaining h =>
    rw [order, find?_ofRemaining, h]
    exact nodes_ofRemaining wires remaining
  | case2 remaining u h ih =>
    have hu := List.mem_of_find?_eq_some h
    rw [order, find?_ofRemaining, h]
    show u :: order wires (place wires (ofRemaining wires remaining) u) = _
    rw [place_ofRemaining hnodup hu, ih (hnodup.erase u)]

/-- The order holds the same nodes. -/
theorem order_perm (wires : List (Nat × Nat)) (p : Pending) : (p.order wires).Perm p.nodes := by
  fun_induction order wires p with
  | case1 p _ => exact .refl _
  | case2 p u _ h ih =>
    have hu : u ∈ p.nodes := List.mem_map_of_mem (List.mem_of_find?_eq_some h)
    rw [nodes_place] at ih
    exact (ih.cons u).trans (List.perm_cons_erase hu).symm

end Pending

/-- Every node is placed, and only once. -/
theorem wireOrder_perm (wires : List (Nat × Nat)) (nodes : List Nat) : (wireOrder wires nodes).Perm nodes := by
  refine (Pending.order_perm wires _).trans (.of_eq ?_)
  simp [Pending.nodes, Pending.ofWires, Function.comp_def]

/-- Counting wires finds the free nodes, if the wires start from the nodes that are to be ordered. -/
theorem wireOrder_eq_freeOrder {wires : List (Nat × Nat)} {nodes : List Nat} (hnodup : nodes.Nodup)
    (hsources : ∀ w ∈ wires, w.1 ∈ nodes) : wireOrder wires nodes = freeOrder wires nodes := by
  have hstart : Pending.ofWires wires nodes = Pending.ofRemaining wires nodes := by
    refine List.map_congr_left fun u _ => congrArg (Prod.mk u) (List.countP_congr fun w hw => ?_)
    simp [hsources w hw]
  rw [wireOrder, hstart, Pending.order_ofRemaining hnodup]

/-! ## The order of all nodes -/

namespace DependencyGraph

variable {g : DependencyGraph} {n : Normalized} {r : Registry}

/-- The wires that count are those between the blocks of the cycle that do not lead to a state boundary. -/
theorem mem_countedWires {blocks : List Nat} {u v : Nat} : (u, v) ∈ g.countedWires n r blocks ↔
    (∃ l ∈ g.links, l.kind = .wire ∧ l.source = u ∧ l.target = v) ∧ u ∈ blocks ∧ v ∈ blocks ∧ g.isBoundary n r v = false := by
  simp only [countedWires, List.mem_map, List.mem_filter, Bool.and_eq_true, decide_eq_true_eq, Bool.not_eq_true',
    List.contains_iff_mem, Prod.mk.injEq]
  constructor
  · rintro ⟨l, ⟨hl, ⟨⟨hkind, hsource⟩, htarget⟩, hboundary⟩, rfl, rfl⟩
    exact ⟨⟨l, hl, hkind, rfl, rfl⟩, hsource, htarget, hboundary⟩
  · rintro ⟨⟨l, hl, hkind, rfl, rfl⟩, hsource, htarget, hboundary⟩
    exact ⟨l, ⟨hl, ⟨⟨hkind, hsource⟩, htarget⟩, hboundary⟩, rfl, rfl⟩

/-- The blocks of a cycle are ordered by taking free ones. -/
theorem wireOrder_countedWires {blocks : List Nat} (hnodup : blocks.Nodup) :
    wireOrder (g.countedWires n r blocks) blocks = freeOrder (g.countedWires n r blocks) blocks :=
  wireOrder_eq_freeOrder hnodup fun _ hw => (mem_countedWires.1 hw).2.1

/-- The order inside a cycle holds the same nodes. -/
theorem cycleOrder_perm (us : List Nat) : (g.cycleOrder n r us).Perm us :=
  ((wireOrder_perm _ _).append_right _).trans (List.filter_append_perm g.isBlock us)

/-- The nodes of a component, in whatever order it takes them. -/
theorem mem_orderedNodes {k : Component} {u : Nat} :
    u ∈ (if k.trivial then k.nodes else g.cycleOrder n r k.nodes) ↔ u ∈ k.nodes := by
  split
  · exact Iff.rfl
  · exact (cycleOrder_perm k.nodes).mem_iff

/-- What holds of an earlier and a later node of a cycle, and of a node and one of a component that comes later, holds of an earlier and
a later node in the order. -/
theorem pairwise_evaluationOrder (hg : g.graph.Closed) {P : Nat → Nat → Prop}
    (hcycle : ∀ k ∈ (g.condense n r).components, k.trivial = false → (g.cycleOrder n r k.nodes).Pairwise P)
    (hlater : ∀ u v, (g.condense n r).placeOf v < (g.condense n r).placeOf u → P u v) :
    (g.evaluationOrder n r (g.condense n r)).Pairwise P := by
  unfold evaluationOrder
  rw [List.pairwise_flatMap]
  constructor
  · intro k hk
    have hk := List.mem_reverse.1 hk
    split
    · rename_i htrivial
      -- a trivial component is a single node
      rw [trivial_of_mem_condense hk] at htrivial
      unfold isTrivial at htrivial
      split at htrivial
      · rename_i hnodes
        rw [hnodes]
        exact List.pairwise_singleton ..
      · cases htrivial
    · exact hcycle k hk (Bool.eq_false_iff.2 ‹_›)
  · rw [List.pairwise_reverse, List.pairwise_iff_getElem]
    intro i j hi hj hij u hu v hv
    have hu := (mem_nodes_iff_placeOf hg (List.getElem?_eq_getElem hj) u).1 (mem_orderedNodes.1 hu)
    have hv := (mem_nodes_iff_placeOf hg (List.getElem?_eq_getElem hi) v).1 (mem_orderedNodes.1 hv)
    exact hlater u v (by omega)

theorem nodup_nodes (hg : g.graph.Closed) {k : Component} (hk : k ∈ (g.condense n r).components) : k.nodes.Nodup :=
  (isComponent_nodes hg hk).ascending.imp Nat.ne_of_lt

/-- No node is taken twice. -/
theorem nodup_evaluationOrder (hg : g.graph.Closed) : (g.evaluationOrder n r (g.condense n r)).Nodup := by
  refine pairwise_evaluationOrder hg (fun k hk _ => ?_) fun u v hlt => ?_
  · exact (cycleOrder_perm k.nodes).nodup_iff.2 (nodup_nodes hg hk)
  · rintro rfl
    omega

/-- Every node is taken. -/
theorem mem_evaluationOrder (hg : g.graph.Closed) {u : Nat} (hu : u < g.graph.size) :
    u ∈ g.evaluationOrder n r (g.condense n r) := by
  obtain ⟨k, hk, huk⟩ := exists_component_at (n := n) (r := r) hg hu
  exact List.mem_flatMap.2 ⟨k, List.mem_reverse.2 (List.mem_of_getElem? hk), mem_orderedNodes.2 huk⟩

/-- Two nodes of one component have the same place. -/
theorem placeOf_eq_of_mem_cycleOrder (hg : g.graph.Closed) {k : Component} (hk : k ∈ (g.condense n r).components) {u v : Nat}
    (hu : u ∈ g.cycleOrder n r k.nodes) (hv : v ∈ g.cycleOrder n r k.nodes) :
    (g.condense n r).placeOf u = (g.condense n r).placeOf v := by
  obtain ⟨i, hi⟩ := List.getElem?_of_mem hk
  have hu := (mem_nodes_iff_placeOf hg hi u).1 ((cycleOrder_perm _).mem_iff.1 hu)
  have hv := (mem_nodes_iff_placeOf hg hi v).1 ((cycleOrder_perm _).mem_iff.1 hv)
  exact hu.2.trans hv.2.symm

/-- Along the order no component comes before one of an earlier place. -/
theorem pairwise_placeOf (hg : g.graph.Closed) : (g.evaluationOrder n r (g.condense n r)).Pairwise fun u v =>
    (g.condense n r).placeOf v ≤ (g.condense n r).placeOf u := by
  refine pairwise_evaluationOrder hg (fun k hk _ => List.pairwise_of_forall_mem_list fun u hu v hv => ?_) fun u v => Nat.le_of_lt
  exact Nat.le_of_eq (placeOf_eq_of_mem_cycleOrder hg hk hv hu)

/-- An edge whose source does not come before its target belongs to a cycle. -/
theorem exists_cycle_of_edge (hg : g.graph.Closed) {front back : List Nat} {u v : Nat}
    (hsplit : g.evaluationOrder n r (g.condense n r) = front ++ v :: back) (hu : u < g.graph.size) (hedge : v ∈ g.graph.successors u)
    (hfront : u ∉ front) : ∃ k ∈ (g.condense n r).components, k.trivial = false ∧ u ∈ k.nodes := by
  obtain ⟨k, hk, huk⟩ := exists_component_at (n := n) (r := r) hg hu
  have hk := List.mem_of_getElem? hk
  refine ⟨k, hk, (trivial_eq_false_iff hg hk).2 ⟨u, huk, ?_⟩, huk⟩
  by_cases heq : u = v
  · subst heq
    exact ⟨[], List.isChain_pair.2 hedge⟩
  · have hmem := mem_evaluationOrder (n := n) (r := r) hg hu
    have hplaces := pairwise_placeOf (n := n) (r := r) hg
    rw [hsplit] at hmem hplaces
    have hback := (List.mem_cons.1 ((List.mem_append.1 hmem).resolve_left hfront)).resolve_left heq
    have hlater := List.rel_of_pairwise_cons (List.pairwise_append.1 hplaces).2.1 hback
    have hsame := Nat.le_antisymm hlater (placeOf_le_of_edge hg hu hedge)
    exact ((placeOf_eq_iff hg hu (hg u v hedge)).1 hsame).exists_isCycle heq

/-- Inside a cycle the blocks come before the buses. -/
theorem blocks_first_cycleOrder (us : List Nat) :
    (g.cycleOrder n r us).Pairwise fun u v => g.isBlock v = true → g.isBlock u = true := by
  refine List.pairwise_append.2 ⟨List.pairwise_of_forall_mem_list ?_, List.pairwise_of_forall_mem_list ?_, ?_⟩
  · intro u hu v _ _
    exact (List.mem_filter.1 ((wireOrder_perm _ _).mem_iff.1 hu)).2
  · intro u _ v hv hblock
    have hbus := (List.mem_filter.1 hv).2
    rw [hblock] at hbus
    cases hbus
  · intro u hu v _ _
    exact (List.mem_filter.1 ((wireOrder_perm _ _).mem_iff.1 hu)).2

end DependencyGraph

namespace Normalized

variable {n : Normalized} {r : Registry}

/-- A link that the order has to follow: it does not lead to a state boundary, nor from a bus to a block of the same cycle. -/
def Follows (n : Normalized) (r : Registry) (l : Link) : Prop :=
  (n.dependencies r).isBoundary n r l.target = false ∧
    (l.kind = .listen → ((n.dependencies r).condense n r).placeOf l.source ≠ ((n.dependencies r).condense n r).placeOf l.target)

/-- Every node of a patch is in the order. -/
theorem mem_order {u : Nat} (hu : u < (n.dependencies r).size) :
    u ∈ (n.dependencies r).evaluationOrder n r ((n.dependencies r).condense n r) := by
  rw [← size_dependencies] at hu
  exact DependencyGraph.mem_evaluationOrder (n.closed_dependencies r) hu

/-- A link never leads to a component at a later place. -/
theorem placeOf_le_of_link {l : Link} (hl : l ∈ (n.dependencies r).links) :
    ((n.dependencies r).condense n r).placeOf l.target ≤ ((n.dependencies r).condense n r).placeOf l.source := by
  have hsize : l.source < (n.dependencies r).graph.size := by
    rw [size_dependencies]
    exact (link_ends hl).1
  exact DependencyGraph.placeOf_le_of_edge (n.closed_dependencies r) hsize (mem_successors_iff.2 ⟨l, hl, rfl, rfl⟩)

/-- The wires that count form no cycle, if every cycle meets a state boundary. -/
theorem countedWires_acyclic
    (hcycles : ∀ us, (n.dependencies r).graph.IsCycle us → ∃ u ∈ us, (n.dependencies r).isBoundary n r u = true)
    (blocks : List Nat) (u : Nat) : ¬TransGen (fun u v => (u, v) ∈ (n.dependencies r).countedWires n r blocks) u u := by
  intro h
  have hwire : ∀ v w, (v, w) ∈ (n.dependencies r).countedWires n r blocks →
      w ∈ (n.dependencies r).graph.successors v ∧ (n.dependencies r).isBoundary n r w = false := by
    intro v w hvw
    obtain ⟨⟨l, hl, -, hends⟩, -, -, hboundary⟩ := DependencyGraph.mem_countedWires.1 hvw
    exact ⟨mem_successors_iff.2 ⟨l, hl, hends⟩, hboundary⟩
  obtain ⟨us, hcycle, hnone⟩ := Digraph.exists_isCycle_of_transGen (g := (n.dependencies r).graph)
    (P := fun v => (n.dependencies r).isBoundary n r v = false) (fun v w hvw => (hwire v w hvw).2) (fun v w hvw => (hwire v w hvw).1) h
  obtain ⟨v, hv, hboundary⟩ := hcycles _ hcycle
  cases (hnone v hv).symm.trans hboundary

/-- If every cycle meets a state boundary, the source of a link that the order has to follow never comes after its target. -/
theorem pairwise_follows
    (hcycles : ∀ us, (n.dependencies r).graph.IsCycle us → ∃ u ∈ us, (n.dependencies r).isBoundary n r u = true) :
    ((n.dependencies r).evaluationOrder n r ((n.dependencies r).condense n r)).Pairwise fun v u =>
      ∀ l ∈ (n.dependencies r).links, n.Follows r l → l.source = u → l.target ≠ v := by
  have hg := n.closed_dependencies r
  refine DependencyGraph.pairwise_evaluationOrder hg (fun k hk _ => ?_) ?_
  · have hsame : ∀ {u v : Nat}, u ∈ (n.dependencies r).cycleOrder n r k.nodes → v ∈ (n.dependencies r).cycleOrder n r k.nodes →
        ((n.dependencies r).condense n r).placeOf u = ((n.dependencies r).condense n r).placeOf v :=
      fun hu hv => DependencyGraph.placeOf_eq_of_mem_cycleOrder hg hk hu hv
    refine List.pairwise_append.2 ⟨?_, List.pairwise_of_forall_mem_list ?_, ?_⟩
    · -- between blocks the link is a wire that counts
      rw [DependencyGraph.wireOrder_countedWires ((DependencyGraph.nodup_nodes hg hk).filter _)]
      refine List.Pairwise.imp_of_mem ?_ (pairwise_freeOrder (countedWires_acyclic hcycles _) _)
      rintro v u hv hu hwire l hl ⟨hboundary, -⟩ rfl rfl
      have hv := (freeOrder_perm _ _).mem_iff.1 hv
      have hu := (freeOrder_perm _ _).mem_iff.1 hu
      obtain ⟨-, -, hsource, htarget⟩ := link_ends hl
      have hnotListen := hsource.1 (List.mem_filter.1 hu).2
      have hnotPublish := htarget.1 (List.mem_filter.1 hv).2
      have hkind : l.kind = .wire := by
        cases hk : l.kind with
        | wire => rfl
        | publish => exact absurd hk hnotPublish
        | listen => exact absurd hk hnotListen
      exact hwire (DependencyGraph.mem_countedWires.2 ⟨⟨l, hl, hkind, rfl, rfl⟩, hu, hv, hboundary⟩)
    · -- no link leads from a bus to a bus
      rintro v hv u hu l hl - rfl rfl
      obtain ⟨-, -, hsource, htarget⟩ := link_ends hl
      have hu := (List.mem_filter.1 hu).2
      have hv := (List.mem_filter.1 hv).2
      simp only [Bool.not_eq_true'] at hu hv
      rw [hu] at hsource
      rw [hv] at htarget
      cases hk : l.kind <;> simp_all
    · -- the bus that a block of its cycle listens to is not looked at
      rintro v hv u hu l hl ⟨-, hlisten⟩ rfl rfl
      have hbus := (List.mem_filter.1 hu).2
      simp only [Bool.not_eq_true'] at hbus
      obtain ⟨-, -, hsource, -⟩ := link_ends hl
      rw [hbus] at hsource
      have hkind : l.kind = .listen := by
        by_contra hk
        cases hsource.2 hk
      exact hlisten hkind (hsame (List.mem_append_right _ hu) (List.mem_append_left _ hv))
  · rintro v u hlt l hl - rfl rfl
    exact absurd (placeOf_le_of_link hl) (Nat.not_le.2 hlt)

/-- A bus never comes before a block of its cycle that listens to it. -/
theorem pairwise_listeners :
    ((n.dependencies r).evaluationOrder n r ((n.dependencies r).condense n r)).Pairwise fun u v =>
      ∀ l ∈ (n.dependencies r).links, l.kind = .listen →
        ((n.dependencies r).condense n r).placeOf l.source = ((n.dependencies r).condense n r).placeOf l.target →
        l.source = u → l.target ≠ v := by
  refine DependencyGraph.pairwise_evaluationOrder (n.closed_dependencies r) (fun k _ _ => ?_) ?_
  · refine (DependencyGraph.blocks_first_cycleOrder k.nodes).imp ?_
    rintro u v hblock l hl hkind - rfl rfl
    obtain ⟨-, -, hsource, htarget⟩ := link_ends hl
    exact hsource.1 (hblock (htarget.2 (by rw [hkind]; nofun))) hkind
  · rintro u v hlt l - - hsame rfl rfl
    omega

/-- The source of a link between two components, or of one that leads to a bus, never comes after its target. -/
theorem pairwise_firm :
    ((n.dependencies r).evaluationOrder n r ((n.dependencies r).condense n r)).Pairwise fun v u =>
      ∀ l ∈ (n.dependencies r).links,
        ((n.dependencies r).condense n r).placeOf l.source ≠ ((n.dependencies r).condense n r).placeOf l.target ∨ l.kind = .publish →
        l.source = u → l.target ≠ v := by
  have hg := n.closed_dependencies r
  refine DependencyGraph.pairwise_evaluationOrder hg (fun k hk _ => ?_) ?_
  · -- inside a cycle the link leads to a bus, and the blocks come first
    refine List.Pairwise.imp_of_mem ?_ (DependencyGraph.blocks_first_cycleOrder k.nodes)
    rintro v u hv hu hblock l hl hfirm rfl rfl
    have hkind := hfirm.resolve_left fun hne => hne (DependencyGraph.placeOf_eq_of_mem_cycleOrder hg hk hu hv)
    obtain ⟨-, -, hsource, htarget⟩ := link_ends hl
    exact htarget.1 (hblock (hsource.2 (by rw [hkind]; nofun))) hkind
  · rintro v u hlt l hl - rfl rfl
    exact absurd (placeOf_le_of_link hl) (Nat.not_le.2 hlt)

/-- Without cycles a node comes after all it depends on. -/
theorem mem_before_of_trivial (htrivial : ∀ k ∈ ((n.dependencies r).condense n r).components, k.trivial = true)
    {before after : List Nat} {u v : Nat}
    (hsplit : (n.dependencies r).evaluationOrder n r ((n.dependencies r).condense n r) = before ++ v :: after)
    (hedge : v ∈ (n.dependencies r).graph.successors u) : u ∈ before := by
  have hu : u < (n.dependencies r).graph.size := by
    rw [size_dependencies]
    exact (Digraph.mem_successors_ofArrows.1 hedge).1
  by_contra hbefore
  obtain ⟨k, hk, hfalse, -⟩ := DependencyGraph.exists_cycle_of_edge (n.closed_dependencies r) hsplit hu hedge hbefore
  cases (htrivial k hk).symm.trans hfalse

end Normalized

end PatchGraph
