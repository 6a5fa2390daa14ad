import PatchGraph.Proofs.Patch.Canonical
import PatchGraph.Proofs.Text.Bytes

/-!
# Canonical indices

Normalizing gives every block and every bus of a patch a place that only depends on the ids. Of those that share an id the first one
counts, they ascend by the bytes of their ids, and an id is found exactly at the place of the one that has it (`IndexedById`). The edges
are the enabled ones, by sort key and id, and those that share both stay in the order of the patch (`normalize_indexed`).
-/

namespace PatchGraph

/-- The things that are kept of given things, by their ids: they are the first ones of all ids there are, they ascend by the bytes of their
ids, and the place of an id is where the thing of that id is. -/
structure IndexedById {α : Type} (id : α → String) (given kept : List α) (place? : String → Option Nat) : Prop where
  ascending : kept.Pairwise fun x y => Text.bytes (id x) < Text.bytes (id y)
  ids : ∀ name, name ∈ kept.map id ↔ name ∈ given.map id
  first : ∀ x ∈ kept, (given.find? fun y => id y = id x) = some x
  place : ∀ name i, place? name = some i ↔ kept[i]?.map id = some name

/-- Every id has a place. -/
theorem IndexedById.exists_place {α : Type} {id : α → String} {given kept : List α} {place? : String → Option Nat}
    (h : IndexedById id given kept place?) {x : α} (hx : x ∈ given) : ∃ i, place? (id x) = some i := by
  obtain ⟨y, hy, hid⟩ := List.mem_map.1 ((h.ids (id x)).2 (List.mem_map_of_mem hx))
  obtain ⟨i, hi⟩ := List.getElem?_of_mem hy
  refine ⟨i, (h.place _ i).2 ?_⟩
  rw [hi, Option.map_some, hid]

section SortedById

variable {α : Type} {id : α → String}

/-- Every id has a thing that is kept. -/
theorem mem_ids_sortedById {xs : List α} {name : String} : name ∈ (sortedById id xs).map id ↔ name ∈ xs.map id := by
  simp only [List.mem_map]
  constructor
  · rintro ⟨x, hx, rfl⟩
    exact ⟨x, List.mem_of_find?_eq_some (mem_sortedById.1 hx), rfl⟩
  · rintro ⟨x, hx, rfl⟩
    obtain ⟨y, hy⟩ := Option.isSome_iff_exists.1 (List.find?_isSome.2 ⟨x, hx, decide_eq_true rfl⟩ :
      (xs.find? fun y => id y = id x).isSome = true)
    have hid : id y = id x := by simpa using List.find?_some hy
    exact ⟨y, mem_sortedById.2 (hid ▸ hy), hid⟩

/-- Among distinct ids, an id is found exactly at the place of the thing that has it. -/
theorem findIdx?_eq_some_iff_of_nodup {xs : List α} (h : (xs.map id).Nodup) {name : String} {i : Nat} :
    xs.findIdx? (fun x => id x = name) = some i ↔ xs[i]?.map id = some name := by
  constructor
  · intro hi
    obtain ⟨x, hx, rfl⟩ := getElem?_findIdx? hi
    rw [hx, Option.map_some]
  · intro hi
    obtain ⟨x, hx, rfl⟩ := Option.map_eq_some_iff.1 hi
    exact findIdx?_of_nodup h hx

/-- The first things of each id, ascending, are indexed by their ids. -/
theorem indexedById_sortedById (xs : List α) :
    IndexedById id xs (sortedById id xs) fun name => (sortedById id xs).findIdx? fun x => id x = name where
  ascending := by
    have hascending : (sortedById id xs).Pairwise fun x y => id x < id y := ascending_sortedById xs
    exact hascending.imp Text.bytes_lt_bytes
  ids _ := mem_ids_sortedById
  first _ := mem_sortedById.1
  place _ _ := findIdx?_eq_some_iff_of_nodup (nodup_of_ascending (ascending_sortedById xs))

end SortedById

namespace Patch

variable (p : Patch) (r : Registry)

/-- The blocks of a normalized patch are indexed by their ids. -/
theorem indexed_blocks :
    IndexedById Block.id p.blocks (p.normalize r).1.blocks fun id => ((p.normalize r).1.blockIx? id).map (·.index) := by
  have hplace : (fun id => ((p.normalize r).1.blockIx? id).map (·.index)) = fun id => p.sortedBlocks.findIdx? (·.id = id) := by
    funext id
    simp [Normalized.blockIx?, Function.comp_def, normalize]
  rw [hplace]
  exact indexedById_sortedById p.blocks

/-- The buses of a normalized patch are indexed by their ids. -/
theorem indexed_buses :
    IndexedById Bus.id p.buses (p.normalize r).1.buses fun id => ((p.normalize r).1.busIx? id).map (·.index) := by
  have hplace : (fun id => ((p.normalize r).1.busIx? id).map (·.index)) = fun id => p.sortedBuses.findIdx? (·.id = id) := by
    funext id
    simp [Normalized.busIx?, Function.comp_def, normalize]
  rw [hplace]
  exact indexedById_sortedById p.buses

end Patch

/-! ## Edges -/

/-- Edges are ordered by sort key first, and by the bytes of their ids where the keys are equal. -/
theorem Edge.order_isLE_iff {e f : Edge} : (e.order f).isLE = true ↔
    e.sortKey.getD 0 < f.sortKey.getD 0 ∨ e.sortKey.getD 0 = f.sortKey.getD 0 ∧ Text.bytes e.id ≤ Text.bytes f.id :=
  Text.isLE_then_compare_iff

namespace Patch

theorem sortedEdges_perm (p : Patch) : p.sortedEdges.Perm (p.edges.filter (·.enabled)) := List.mergeSort_perm _ _

/-- Edges of the same sort key and id stay in the order of the patch. -/
theorem filter_sortedEdges (p : Patch) (key : Int) (id : String) :
    (p.sortedEdges.filter fun e => e.sortKey.getD 0 = key ∧ e.id = id)
      = p.edges.filter fun e => e.enabled ∧ e.sortKey.getD 0 = key ∧ e.id = id := by
  rw [sortedEdges, filter_mergeSort_cmp, List.filter_filter]
  · exact List.filter_congr fun e _ => by cases e.enabled <;> simp
  · intro e f he hf
    obtain ⟨rfl, rfl⟩ := of_decide_eq_true he
    obtain ⟨hkey, hid⟩ := of_decide_eq_true hf
    rw [Edge.order_isLE_iff, hkey, hid]
    exact .inr ⟨rfl, List.le_refl _⟩

/-- The indices of a normalized patch are canonical. Its blocks and its buses are the first ones of all ids of the patch, ascending by the
bytes of the ids, and each id is found at the place of the block or the bus that has it. Its edges are the enabled edges of the patch, as
often as they are there, in the order of their sort keys, which are zero where they are absent, then of their ids, and edges that share
both are in the order of the patch. -/
theorem normalize_indexed (p : Patch) (r : Registry) :
    let n := (p.normalize r).1
    IndexedById Block.id p.blocks n.blocks (fun id => (n.blockIx? id).map (·.index)) ∧
    IndexedById Bus.id p.buses n.buses (fun id => (n.busIx? id).map (·.index)) ∧
    n.edges.Perm (p.edges.filter (·.enabled)) ∧
    n.edges.Pairwise (fun e f => e.sortKey.getD 0 < f.sortKey.getD 0 ∨
      e.sortKey.getD 0 = f.sortKey.getD 0 ∧ Text.bytes e.id ≤ Text.bytes f.id) ∧
    ∀ key id, (n.edges.filter fun e => e.sortKey.getD 0 = key ∧ e.id = id)
      = p.edges.filter fun e => e.enabled ∧ e.sortKey.getD 0 = key ∧ e.id = id := by
  exact ⟨p.indexed_blocks r, p.indexed_buses r, p.sortedEdges_perm, p.ordered_sortedEdges.imp Edge.order_isLE_iff.1,
    p.filter_sortedEdges⟩

end Patch

end PatchGraph
