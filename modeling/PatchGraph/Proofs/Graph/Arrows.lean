import PatchGraph.Graph.Order
import PatchGraph.Proofs.Graph.Search
import PatchGraph.Proofs.Repeats

/-!
# Arrows

A graph is made of arrows by adding one after the other; then the successors of each node are sorted, and repeats are left out. What
comes out is what one would expect: the successors of a node are the targets of its arrows (`mem_successors_ofArrows`), each once and
ascending (`ascending_successors_ofArrows`). The arrows of a patch are its links. The kind of a link says which of its ends are blocks,
and there is no link between two buses.
-/

namespace PatchGraph

namespace Digraph

/-! ## Graphs of arrows -/

variable {size : Nat} {arrows : List (Nat × Nat)} {u v : Nat}

/-- What was added for a node: the targets of its arrows, in order. -/
theorem getElem?_foldl_push (arrows : List (Nat × Nat)) (next : Array (List Nat)) (u : Nat) :
    (arrows.foldl push next)[u]? = next[u]?.map (· ++ (arrows.filter fun x => x.1 = u).map (·.2)) := by
  induction arrows generalizing next with
  | nil => simp
  | cons x rest ih =>
    rw [List.foldl_cons, ih, push, Array.getElem?_modify]
    by_cases hu : x.1 = u
    · simp [hu, Function.comp_def]
    · simp [hu]

/-- The successors of a node are the targets of its arrows, sorted and without repeats. -/
theorem successors_ofArrows (hu : u < size) :
    (ofArrows size arrows).successors u = (sortNodes ((arrows.filter fun x => x.1 = u).map (·.2))).eraseReps := by
  simp [successors, ofArrows, getElem?_foldl_push, hu]

/-- Beyond the nodes there are no successors. -/
theorem successors_ofArrows_of_le (hu : size ≤ u) : (ofArrows size arrows).successors u = [] := by
  simp [successors, ofArrows, getElem?_foldl_push, Nat.not_lt.2 hu]

/-- Arrows add no nodes. -/
theorem size_ofArrows (size : Nat) (arrows : List (Nat × Nat)) : (ofArrows size arrows).size = size := by
  have hfold : ∀ next : Array (List Nat), (arrows.foldl push next).size = next.size := by
    induction arrows with
    | nil => exact fun _ => rfl
    | cons x rest ih => exact fun next => (ih _).trans Array.size_modify
  simp [ofArrows, Digraph.size, hfold]

/-- The successors in a graph of arrows are the targets of arrows. -/
theorem mem_successors_ofArrows : v ∈ (ofArrows size arrows).successors u ↔ u < size ∧ (u, v) ∈ arrows := by
  by_cases hu : u < size
  · rw [successors_ofArrows hu, mem_eraseReps, (perm_sortNodes _).mem_iff]
    simp [hu]
  · rw [successors_ofArrows_of_le (Nat.not_lt.1 hu)]
    simp [hu]

/-- The successors of a node ascend, so that each is there once. -/
theorem ascending_successors_ofArrows (size : Nat) (arrows : List (Nat × Nat)) (u : Nat) :
    ((ofArrows size arrows).successors u).Pairwise (· < ·) := by
  by_cases hu : u < size
  · rw [successors_ofArrows hu]
    exact pairwise_eraseRepsBy id (pairwise_sortNodes _)
  · rw [successors_ofArrows_of_le (Nat.not_lt.1 hu)]
    exact .nil

/-- A graph is closed if its arrows lead to nodes. -/
theorem closed_ofArrows (h : ∀ x ∈ arrows, x.2 < size) : (ofArrows size arrows).Closed := by
  intro u v hv
  rw [size_ofArrows]
  exact h _ (mem_successors_ofArrows.1 hv).2

end Digraph

/-! ## Links of a patch -/

namespace Normalized

variable {n : Normalized} {r : Registry}

/-- A block that is found has a place in the patch. -/
theorem lt_of_blockIx? {id : String} {b : BlockIx} (h : n.blockIx? id = some b) : b.index < n.blocks.length := by
  obtain ⟨i, hi, rfl⟩ := Option.map_eq_some_iff.1 h
  exact (List.findIdx?_eq_some_iff_getElem.1 hi).1

/-- So has a bus. -/
theorem lt_of_busIx? {id : String} {b : BusIx} (h : n.busIx? id = some b) : b.index < n.buses.length := by
  obtain ⟨i, hi, rfl⟩ := Option.map_eq_some_iff.1 h
  exact (List.findIdx?_eq_some_iff_getElem.1 hi).1

/-- A port is at the node of its block. -/
theorem endNode_port {side : Side} {block port : String} {u : Nat} (h : n.endNode r side (.port block port) = .ok u) :
    ∃ b, n.blockIx? block = some b ∧ u = b.index := by
  unfold endNode at h
  dsimp only at h
  split at h
  · cases h
  · rename_i b hb
    split at h
    · exact ⟨b, hb, (Except.ok.inj h).symm⟩
    · split at h
      · exact ⟨b, hb, (Except.ok.inj h).symm⟩
      · cases h

/-- A bus is at its node, which comes after those of the blocks. -/
theorem endNode_bus {side : Side} {id : String} {u : Nat} (h : n.endNode r side (.bus id) = .ok u) :
    ∃ b, n.busIx? id = some b ∧ u = n.blocks.length + b.index := by
  unfold endNode at h
  dsimp only at h
  split at h
  · cases h
  · rename_i b hb
    exact ⟨b, hb, (Except.ok.inj h).symm⟩

/-- An end is at a node of the graph, which is a block exactly if the end is a port. -/
theorem endNode_lt {side : Side} {e : Endpoint} {u : Nat} (h : n.endNode r side e = .ok u) :
    u < (n.dependencies r).size ∧ ((n.dependencies r).isBlock u = true ↔ ∃ block port, e = .port block port) := by
  show u < n.blocks.length + n.buses.length ∧ (decide (u < n.blocks.length) = true ↔ _)
  cases e with
  | port block port =>
    obtain ⟨b, hb, rfl⟩ := endNode_port h
    have hlt := lt_of_blockIx? hb
    exact ⟨by omega, by simp [hlt]⟩
  | bus id =>
    obtain ⟨b, hb, rfl⟩ := endNode_bus h
    have hlt := lt_of_busIx? hb
    exact ⟨by omega, by simp⟩

/-- A link is made of an edge with both its ends in the graph. -/
theorem exists_edge_of_mem_links {l : Link} (hl : l ∈ (n.dependencies r).links) :
    ∃ e ∈ n.edges, e.joinsBuses = false ∧ n.endNode r .output e.source = .ok l.source
      ∧ n.endNode r .input e.target = .ok l.target ∧ l.kind = linkKind e := by
  obtain ⟨⟨e, i⟩, he, hlink⟩ := List.mem_filterMap.1 hl
  have hmem := List.mem_of_getElem? (List.mem_zipIdx_iff_getElem?.1 he)
  dsimp only [link?] at hlink
  split at hlink
  · cases hlink
  · rename_i hjoins
    split at hlink
    · rename_i u v hu hv
      obtain rfl := Option.some.inj hlink
      exact ⟨e, hmem, Bool.eq_false_iff.2 hjoins, hu, hv, rfl⟩
    · cases hlink

/-- The ends of a link are nodes, and its kind says which of them are blocks. -/
theorem link_ends {l : Link} (hl : l ∈ (n.dependencies r).links) :
    l.source < (n.dependencies r).size ∧ l.target < (n.dependencies r).size
      ∧ ((n.dependencies r).isBlock l.source = true ↔ l.kind ≠ .listen)
      ∧ ((n.dependencies r).isBlock l.target = true ↔ l.kind ≠ .publish) := by
  obtain ⟨e, -, hjoins, hsource, htarget, hkind⟩ := exists_edge_of_mem_links hl
  obtain ⟨hslt, hsblock⟩ := endNode_lt hsource
  obtain ⟨htlt, htblock⟩ := endNode_lt htarget
  refine ⟨hslt, htlt, ?_⟩
  rw [hsblock, htblock, hkind]
  unfold linkKind
  unfold Edge.joinsBuses at hjoins
  cases hs : e.source <;> cases ht : e.target <;> simp_all

/-- The edges of the graph are its links. -/
theorem mem_successors_iff {u v : Nat} :
    v ∈ (n.dependencies r).graph.successors u ↔ ∃ l ∈ (n.dependencies r).links, l.source = u ∧ l.target = v := by
  have harrows : v ∈ (n.dependencies r).graph.successors u ↔ u < (n.dependencies r).size
      ∧ (u, v) ∈ (n.dependencies r).links.map fun l => (l.source, l.target) :=
    Digraph.mem_successors_ofArrows
  rw [harrows]
  constructor
  · rintro ⟨-, hmem⟩
    obtain ⟨l, hl, heq⟩ := List.mem_map.1 hmem
    obtain ⟨hs, ht⟩ := Prod.mk.inj heq
    exact ⟨l, hl, hs, ht⟩
  · rintro ⟨l, hl, rfl, rfl⟩
    exact ⟨(link_ends hl).1, List.mem_map.2 ⟨l, hl, rfl⟩⟩

/-- The edges of a patch's dependency graph stay in it. -/
theorem closed_dependencies (n : Normalized) (r : Registry) : (n.dependencies r).graph.Closed := by
  refine Digraph.closed_ofArrows fun x hx => ?_
  obtain ⟨l, hl, rfl⟩ := List.mem_map.1 hx
  exact (link_ends hl).2.1

/-- The graph of a patch has a node for each block and each bus. -/
theorem size_dependencies (n : Normalized) (r : Registry) : (n.dependencies r).graph.size = (n.dependencies r).size :=
  Digraph.size_ofArrows _ _

end Normalized

end PatchGraph
