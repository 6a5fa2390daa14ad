import PatchGraph.Graph.Order
import PatchGraph.Proofs.Graph.Components
import PatchGraph.Proofs.Patch.Canonical
import PatchGraph.Writers

/-!
# Links

If nothing is wrong with the edges of a patch, each of them is a link of its dependency graph, so a block depends on all that its inputs
are written from, and a bus on its publishers.
-/

namespace PatchGraph

namespace Normalized

variable {n : Normalized} {r : Registry}

theorem blockId_of_block? {ix : BlockIx} {b : Block} (h : n.block? ix = some b) : n.blockId ix = b.id := by
  rw [blockId, h]
  rfl

/-- Among the nodes of a patch the blocks come first. -/
theorem node_dependencies (n : Normalized) (r : Registry) (u : Nat) :
    (n.dependencies r).node u = if u < n.blocks.length then .block ⟨u⟩ else .bus ⟨u - n.blocks.length⟩ := rfl

theorem node_eq_block_iff {u : Nat} {b : BlockIx} : (n.dependencies r).node u = .block b ↔ u < n.blocks.length ∧ u = b.index := by
  rw [node_dependencies]
  split
  · exact ⟨fun h => ⟨‹_›, congrArg BlockIx.index (Node.block.inj h)⟩, fun h => by rw [h.2]⟩
  · refine ⟨fun h => ?_, fun h => absurd h.1 ‹_›⟩
    cases h

/-! ## Writers are links -/

/-- No two blocks and no two buses share an id. -/
structure Distinct (n : Normalized) : Prop where
  blocks : (n.blocks.map (·.id)).Nodup
  buses : (n.buses.map (·.id)).Nodup

theorem Distinct.blockIx?_blockId (hn : n.Distinct) {ix : BlockIx} (hix : ix.index < n.blocks.length) :
    n.blockIx? (n.blockId ix) = some ix := by
  have hblock : n.block? ix = some n.blocks[ix.index] := List.getElem?_eq_getElem hix
  rw [blockIx?, blockId, hblock, Option.map_some, Option.getD_some, findIdx?_of_nodup hn.blocks hblock]
  rfl

theorem Distinct.busIx?_id (hn : n.Distinct) {ix : BusIx} {b : Bus} (hb : n.bus? ix = some b) : n.busIx? b.id = some ix := by
  rw [busIx?, findIdx?_of_nodup hn.buses hb]
  rfl

theorem endNode_of_silent {edge : String} {side : Side} {e : Endpoint} (h : n.endDiagnostics r edge side e = []) :
    ∃ u, n.endNode r side e = .ok u := by
  unfold endDiagnostics at h
  cases hu : n.endNode r side e with
  | ok u => exact ⟨u, rfl⟩
  | error p =>
    rw [hu] at h
    cases h

/-- An edge that nothing is wrong with joins no two buses, and both its ends are at nodes. -/
theorem ends_of_silent (hdeps : n.dependencyDiagnostics r = []) {e : Edge} (he : e ∈ n.edges) :
    ∃ u v, e.joinsBuses = false ∧ n.endNode r .output e.source = .ok u ∧ n.endNode r .input e.target = .ok v := by
  have hsilent := List.flatMap_eq_nil_iff.1 hdeps e he
  unfold linkDiagnostics at hsilent
  split at hsilent
  · cases hsilent
  · rename_i hjoins
    obtain ⟨hsource, htarget⟩ := List.append_eq_nil_iff.1 hsilent
    obtain ⟨u, hu⟩ := endNode_of_silent hsource
    obtain ⟨v, hv⟩ := endNode_of_silent htarget
    exact ⟨u, v, Bool.eq_false_iff.2 hjoins, hu, hv⟩

/-- An edge that nothing is wrong with has a link. -/
theorem exists_link (hdeps : n.dependencyDiagnostics r = []) {e : Edge} (he : e ∈ n.edges) (i : Nat) :
    ∃ u v, n.link? r e i = some ⟨u, v, linkKind e, i, e.id⟩ ∧ e.joinsBuses = false ∧ n.endNode r .output e.source = .ok u
      ∧ n.endNode r .input e.target = .ok v := by
  obtain ⟨u, v, hjoins, hu, hv⟩ := ends_of_silent hdeps he
  refine ⟨u, v, ?_, hjoins, hu, hv⟩
  simp only [link?, hjoins, hu, hv]
  rfl

/-- An edge that nothing is wrong with is an edge of the graph. -/
theorem exists_successor_of_edge (hdeps : n.dependencyDiagnostics r = []) {e : Edge} (he : e ∈ n.edges) :
    ∃ u v, n.endNode r .output e.source = .ok u ∧ n.endNode r .input e.target = .ok v
      ∧ v ∈ (n.dependencies r).graph.successors u := by
  obtain ⟨i, hi⟩ := List.getElem?_of_mem he
  obtain ⟨u, v, hlink, -, hu, hv⟩ := exists_link hdeps he i
  refine ⟨u, v, hu, hv, mem_successors_iff.2 ?_⟩
  exact ⟨_, List.mem_filterMap.2 ⟨(e, i), List.mem_zipIdx_iff_getElem?.2 hi, hlink⟩, rfl, rfl⟩

/-- The node that a writer starts from. -/
def writerNode? (n : Normalized) : Writer → Option Nat
  | .wire _ _ b _ => some b.index
  | .bus _ _ b => some (n.blocks.length + b.index)
  | .fallback _ _ => none

/-- The writer of an edge starts where the edge does. -/
theorem writerNode?_writerOf? {e : Edge} {i : Nat} {x : Writer} {u : Nat} (hx : n.writerOf? e i = some x)
    (hu : n.endNode r .output e.source = .ok u) : n.writerNode? x = some u := by
  unfold writerOf? at hx
  split at hx
  · rename_i block port hsource
    rw [hsource] at hu
    obtain ⟨b, hb, rfl⟩ := endNode_port hu
    rw [hb] at hx
    obtain rfl := Option.some.inj hx
    rfl
  · rename_i id hsource
    rw [hsource] at hu
    obtain ⟨b, hb, rfl⟩ := endNode_bus hu
    rw [hb] at hx
    obtain rfl := Option.some.inj hx
    rfl

/-- The writers of an input are the edges that lead to it, and its default. -/
theorem mem_writers {ix : BlockIx} {port : String} {x : Writer} : x ∈ n.writers ix port ↔
    (∃ i e, n.edges[i]? = some e ∧ e.target = .port (n.blockId ix) port ∧ n.writerOf? e i = some x)
      ∨ n.fallbackWriter? ix port = some x := by
  rw [writers, List.mem_mergeSort, List.mem_append, Option.mem_toList, List.mem_filterMap]
  refine or_congr_left ⟨?_, ?_⟩
  · rintro ⟨⟨e, i⟩, he, hwriter⟩
    obtain ⟨he, htarget⟩ := List.mem_filter.1 he
    exact ⟨i, e, List.mem_zipIdx_iff_getElem?.1 he, of_decide_eq_true htarget, hwriter⟩
  · rintro ⟨i, e, he, htarget, hwriter⟩
    exact ⟨(e, i), List.mem_filter.2 ⟨List.mem_zipIdx_iff_getElem?.2 he, decide_eq_true htarget⟩, hwriter⟩

/-- The publishers of a bus are the wires into it. -/
theorem mem_publishers {id : String} {x : Writer} : x ∈ n.publishers id ↔
    ∃ i e block port, n.edges[i]? = some e ∧ e.source = .port block port ∧ e.target = .bus id ∧ n.writerOf? e i = some x := by
  rw [publishers, List.mem_filterMap]
  constructor
  · rintro ⟨⟨e, i⟩, he, hwriter⟩
    obtain ⟨he, htarget⟩ := List.mem_filter.1 he
    dsimp only at hwriter
    cases hsource : e.source with
    | port block port =>
      rw [hsource] at hwriter
      exact ⟨i, e, block, port, List.mem_zipIdx_iff_getElem?.1 he, hsource, of_decide_eq_true htarget, hwriter⟩
    | bus _ =>
      rw [hsource] at hwriter
      cases hwriter
  · rintro ⟨i, e, block, port, he, hsource, htarget, hwriter⟩
    refine ⟨(e, i), List.mem_filter.2 ⟨List.mem_zipIdx_iff_getElem?.2 he, decide_eq_true htarget⟩, ?_⟩
    dsimp only
    rw [hsource]
    exact hwriter

/-- The block that a wire starts from is there. -/
theorem lt_of_mem_writers {ix b : BlockIx} {port output : String} {i : Nat} {id : String}
    (hx : .wire i id b output ∈ n.writers ix port) : b.index < n.blocks.length := by
  rcases mem_writers.1 hx with ⟨i, e, -, -, hwriter⟩ | hx
  · unfold writerOf? at hwriter
    split at hwriter
    all_goals
      obtain ⟨b', hb, heq⟩ := Option.map_eq_some_iff.1 hwriter
      cases heq
    exact lt_of_blockIx? hb
  · obtain ⟨d, -, heq⟩ := Option.map_eq_some_iff.1 hx
    cases heq

variable (hn : n.Distinct) (hdeps : n.dependencyDiagnostics r = [])

include hn hdeps

/-- A block depends on what its inputs are written from. -/
theorem successor_of_mem_writers {ix : BlockIx} (hix : ix.index < n.blocks.length) {port : String} {x : Writer}
    (hx : x ∈ n.writers ix port) {u : Nat} (hu : n.writerNode? x = some u) :
    ix.index ∈ (n.dependencies r).graph.successors u := by
  rcases mem_writers.1 hx with ⟨i, e, he, htarget, hwriter⟩ | hx
  · obtain ⟨u', v, hsource, hv, hedge⟩ := exists_successor_of_edge hdeps (List.mem_of_getElem? he)
    rw [htarget] at hv
    obtain ⟨b, hb, rfl⟩ := endNode_port hv
    obtain rfl := Option.some.inj ((hn.blockIx?_blockId hix).symm.trans hb)
    obtain rfl := Option.some.inj (hu.symm.trans (writerNode?_writerOf? hwriter hsource))
    exact hedge
  · obtain ⟨d, -, rfl⟩ := Option.map_eq_some_iff.1 hx
    cases hu

/-- A bus depends on its publishers. -/
theorem successor_of_mem_publishers {ix : BusIx} {b : Bus} (hb : n.bus? ix = some b) {x : Writer} (hx : x ∈ n.publishers b.id)
    {u : Nat} (hu : n.writerNode? x = some u) : n.blocks.length + ix.index ∈ (n.dependencies r).graph.successors u := by
  obtain ⟨i, e, -, -, he, -, htarget, hwriter⟩ := mem_publishers.1 hx
  obtain ⟨u', v, hsource, hv, hedge⟩ := exists_successor_of_edge hdeps (List.mem_of_getElem? he)
  rw [htarget] at hv
  obtain ⟨j, hj, rfl⟩ := endNode_bus hv
  obtain rfl := Option.some.inj ((hn.busIx?_id hb).symm.trans hj)
  obtain rfl := Option.some.inj (hu.symm.trans (writerNode?_writerOf? hwriter hsource))
  exact hedge

end Normalized

/-! ## Normalized patches have distinct ids -/

theorem Patch.distinct_normalize (p : Patch) (r : Registry) : (p.normalize r).1.Distinct :=
  ⟨nodup_of_ascending (ascending_sortedById p.blocks), nodup_of_ascending (ascending_sortedById p.buses)⟩

end PatchGraph
