import PatchGraph.Normalized
import PatchGraph.Proofs.Dict
import PatchGraph.Proofs.Repeats
import PatchGraph.Proofs.Text.Bytes

/-!
# Canonical patches

What normalizing keeps of a patch: the first block and the first bus of each id, ascending by id, and the enabled edges in their order. A
patch that is already so is canonical, and normalizing leaves exactly the canonical patches as they are (`toPatch_normalize_eq_iff`). So
it makes no difference to normalize a patch once or twice (`normalize_idempotent`).
-/

namespace PatchGraph

/-! ## Parts by their ids -/

namespace Dict

variable {α : Type}

/-- What stands under a name is the first entry of that name. -/
theorem get?_ofFirsts (es : List (String × α)) (name : String) : (ofFirsts es).get? name = es.lookup name := by
  -- the table so far comes before the entries that are left
  suffices hfold : ∀ d : Dict α, (es.foldl (fun d e => if d.contains e.1 then d else d.insert e.1 e.2) d).get? name
      = (d.get? name).or (es.lookup name) from hfold {}
  induction es with
  | nil =>
    intro d
    simp
  | cons e rest ih =>
    intro d
    rw [List.foldl_cons, ih, lookup_cons_ite]
    cases he : d.get? e.1 with
    | none =>
      have hnew : d.contains e.1 = false := by simp [contains, he]
      rw [hnew, if_neg Bool.false_ne_true, get?_insert]
      by_cases hname : name = e.1
      · simp [hname, he]
      · simp [hname]
    | some a =>
      have hold : d.contains e.1 = true := by simp [contains, he]
      rw [if_pos hold]
      by_cases hname : name = e.1
      · simp [hname, he]
      · simp [hname]

/-- A table is made again from its entries. -/
theorem ofFirsts_entries (d : Dict α) : ofFirsts d.entries = d :=
  ext_get? fun name => get?_ofFirsts d.entries name

end Dict

section SortedById

variable {α : Type} (id : α → String)

/-- The first thing of each id, ascending by id. -/
def sortedById (xs : List α) : List α := (Dict.ofFirsts (xs.map fun x => (id x, x))).values

variable {id}

/-- To look up an id is to find the first thing that has it. -/
theorem lookup_map_id (xs : List α) (name : String) : (xs.map fun x => (id x, x)).lookup name = xs.find? fun x => id x = name := by
  induction xs with
  | nil => rfl
  | cons x rest ih =>
    rw [List.map_cons, Dict.lookup_cons_ite, List.find?_cons, ih]
    by_cases hname : id x = name
    · simp [hname]
    · simp [hname, Ne.symm hname]

/-- The table of things by their ids has an entry for the first thing of an id, and no other. -/
theorem mem_ofFirsts_iff {xs : List α} {e : String × α} :
    e ∈ (Dict.ofFirsts (xs.map fun x => (id x, x))).entries ↔ (xs.find? fun x => id x = e.1) = some e.2 := by
  rw [← Dict.get?_eq_some_iff, Dict.get?_ofFirsts, lookup_map_id]

/-- A thing is under its own id. -/
theorem id_of_mem_ofFirsts {xs : List α} {e : String × α} (he : e ∈ (Dict.ofFirsts (xs.map fun x => (id x, x))).entries) :
    id e.2 = e.1 := by
  simpa using List.find?_some (mem_ofFirsts_iff.1 he)

/-- Of the things with an id, the first is kept. -/
theorem mem_sortedById {xs : List α} {x : α} : x ∈ sortedById id xs ↔ (xs.find? fun y => id y = id x) = some x := by
  simp only [sortedById, Dict.values, List.mem_map]
  constructor
  · rintro ⟨e, he, rfl⟩
    rw [id_of_mem_ofFirsts he]
    exact mem_ofFirsts_iff.1 he
  · intro h
    exact ⟨(id x, x), mem_ofFirsts_iff.2 h, rfl⟩

/-- Things that are sorted by id ascend strictly, since no id is left twice. -/
theorem ascending_sortedById (xs : List α) : (sortedById id xs).Pairwise fun x y => id x < id y := by
  refine List.pairwise_map.2 ((Dict.ascending _).imp_of_mem ?_)
  intro e f he hf hlt
  rwa [id_of_mem_ofFirsts he, id_of_mem_ofFirsts hf]

/-- Things that are ascending by id are left as they are. -/
theorem sortedById_eq_self {xs : List α} (h : xs.Pairwise fun x y => id x < id y) : sortedById id xs = xs := by
  have hself : Dict.ofFirsts (xs.map fun x => (id x, x)) = ⟨xs.map fun x => (id x, x), List.pairwise_map.2 h⟩ :=
    Dict.ofFirsts_entries ⟨_, _⟩
  rw [sortedById, hself, Dict.values, List.map_map]
  exact List.map_id xs

/-- Things that are ascending by id have distinct ids. -/
theorem nodup_of_ascending {xs : List α} (h : xs.Pairwise fun x y => id x < id y) : (xs.map id).Nodup := by
  refine List.pairwise_map.2 (h.imp ?_)
  intro x y hlt heq
  exact String.lt_irrefl _ (heq ▸ hlt)

/-- Where an id is found, there is a thing of that id. -/
theorem getElem?_findIdx? {xs : List α} {name : String} {i : Nat} (h : xs.findIdx? (fun x => id x = name) = some i) :
    ∃ x, xs[i]? = some x ∧ id x = name := by
  obtain ⟨hlt, hid, -⟩ := List.findIdx?_eq_some_iff_getElem.1 h
  exact ⟨xs[i], List.getElem?_eq_getElem hlt, of_decide_eq_true hid⟩

/-- The first of things with distinct ids that has an id is the only one. -/
theorem findIdx?_of_nodup {xs : List α} (h : (xs.map id).Nodup) {i : Nat} {x : α} (hx : xs[i]? = some x) :
    xs.findIdx? (fun y => id y = id x) = some i := by
  obtain ⟨hi, hx⟩ := List.getElem?_eq_some_iff.1 hx
  refine List.findIdx?_eq_some_iff_getElem.2 ⟨hi, by simp [hx], fun j hji => ?_⟩
  have hne := List.pairwise_iff_getElem.1 h j i (by simp; omega) (by simpa using hi) hji
  simpa [hx] using hne

end SortedById

/-! ## Sorting by a comparison -/

section Sorting

variable {α : Type} {cmp : α → α → Ordering} [Std.TransCmp cmp]

theorem isLE_total (a b : α) : ((cmp a b).isLE || (cmp b a).isLE) = true := by
  have hswap : cmp b a = (cmp a b).swap := Std.OrientedCmp.eq_swap
  rw [hswap]
  cases cmp a b <;> rfl

/-- What is sorted is in order. -/
theorem pairwise_mergeSort_cmp (xs : List α) :
    (xs.mergeSort fun a b => (cmp a b).isLE).Pairwise fun a b => (cmp a b).isLE = true :=
  List.pairwise_mergeSort (fun _ _ _ => Std.TransCmp.isLE_trans) isLE_total xs

/-- Things that are equal in the order stay as they are. -/
theorem filter_mergeSort_cmp {P : α → Bool} (hties : ∀ a b, P a = true → P b = true → (cmp a b).isLE = true) (xs : List α) :
    (xs.mergeSort fun a b => (cmp a b).isLE).filter P = xs.filter P := by
  have hordered : (xs.filter P).Pairwise fun a b => (cmp a b).isLE = true := by
    refine List.pairwise_iff_forall_sublist.2 fun {a b} hab => ?_
    have hP : ∀ c ∈ [a, b], P c = true := fun c hc => List.of_mem_filter (hab.subset hc)
    exact hties a b (hP a (by simp)) (hP b (by simp))
  have hsub : (xs.filter P).Sublist (xs.mergeSort fun a b => (cmp a b).isLE) :=
    List.sublist_mergeSort (fun _ _ _ => Std.TransCmp.isLE_trans) isLE_total hordered List.filter_sublist
  have hfilter : (xs.filter P).Sublist ((xs.mergeSort fun a b => (cmp a b).isLE).filter P) := by
    simpa using hsub.filter P
  exact (hfilter.eq_of_length ((List.mergeSort_perm xs _).filter P).length_eq.symm).symm

end Sorting

/-! ## Sorting by id -/

section ById

variable {α : Type} (id : α → String)

/-- Things of one id stay as they are when things are sorted by id, so the first of them stays the first. -/
theorem find?_mergeSort_id (xs : List α) (name : String) :
    (xs.mergeSort fun x y => (compare (id x) (id y)).isLE).find? (fun x => id x = name) = xs.find? fun x => id x = name := by
  have hties : ∀ x y, decide (id x = name) = true → decide (id y = name) = true → (compareOn id x y).isLE = true := by
    intro x y hx hy
    rw [compareOn, of_decide_eq_true hx, of_decide_eq_true hy, Std.compare_self]
    rfl
  rw [← List.head?_filter, ← List.head?_filter]
  exact congrArg List.head? (filter_mergeSort_cmp hties xs)

/-- To sort things by id and then leave out each that has the id of the one before it keeps the first thing of each id. -/
theorem sortedById_eq_eraseRepsBy (xs : List α) :
    sortedById id xs = (xs.mergeSort fun x y => (compare (id x) (id y)).isLE).eraseRepsBy fun x y => id x == id y := by
  have hsorted : (xs.mergeSort fun x y => (compare (id x) (id y)).isLE).Pairwise fun x y => id x ≤ id y :=
    (@pairwise_mergeSort_cmp _ (compareOn id) _ xs).imp Text.isLE_compare_iff.1
  have hleft : (sortedById id xs).Pairwise fun x y => id x < id y := ascending_sortedById xs
  have hright := pairwise_eraseRepsBy id hsorted
  -- Both ascend strictly, so they are equal once they have the same members.
  refine List.Perm.eq_of_pairwise (fun x y _ _ hxy hyx => absurd (String.lt_trans hxy hyx) (String.lt_irrefl _)) hleft hright ?_
  have hnodup : ∀ {ys : List α}, ys.Pairwise (fun x y => id x < id y) → ys.Nodup := by
    intro ys h
    refine List.Pairwise.imp (fun {x y} hlt => ?_) h
    rintro rfl
    exact String.lt_irrefl _ hlt
  rw [List.perm_ext_iff_of_nodup (hnodup hleft) (hnodup hright)]
  intro x
  rw [mem_sortedById, mem_eraseRepsBy id hsorted, find?_mergeSort_id]

end ById

/-! ## Edges in their order -/

/-- What edges are ordered by: the sort key, which is zero where it is absent, and the id. -/
def Edge.key (e : Edge) : Int × String := (e.sortKey.getD 0, e.id)

/-- Two edges that neither comes before the other have the same key. -/
theorem Edge.key_eq_of_order {e f : Edge} (h : e.order f = .eq) : e.key = f.key := by
  rw [Edge.order, Ordering.then_eq_eq] at h
  exact Prod.ext (Std.LawfulEqCmp.eq_of_compare h.1) (Std.LawfulEqCmp.eq_of_compare h.2)

/-- The order of edges compares sort keys first and ids second. -/
theorem Edge.order_eq : Edge.order = compareLex (compareOn fun e : Edge => e.sortKey.getD 0) (compareOn Edge.id) := rfl

instance : Std.TransCmp Edge.order := by
  rw [Edge.order_eq]
  infer_instance

namespace Patch

variable {p q : Patch} {r : Registry}

/-- The blocks of a normalized patch are the blocks of the patch after a stable sort by id, less those that repeat an id. -/
theorem sortedBlocks_eq_eraseRepsBy (p : Patch) : p.sortedBlocks
    = (p.blocks.mergeSort fun a b => (compare a.id b.id).isLE).eraseRepsBy fun a b => a.id == b.id :=
  sortedById_eq_eraseRepsBy Block.id p.blocks

/-- Buses are sorted as blocks are. -/
theorem sortedBuses_eq_eraseRepsBy (p : Patch) : p.sortedBuses
    = (p.buses.mergeSort fun a b => (compare a.id b.id).isLE).eraseRepsBy fun a b => a.id == b.id :=
  sortedById_eq_eraseRepsBy Bus.id p.buses

/-- What is left of the edges is what is switched on. -/
theorem mem_sortedEdges {e : Edge} : e ∈ p.sortedEdges ↔ e ∈ p.edges ∧ e.enabled = true := by
  rw [sortedEdges, List.mem_mergeSort, List.mem_filter]

/-- Sorted edges are in order. -/
theorem ordered_sortedEdges (p : Patch) : p.sortedEdges.Pairwise fun e f => (e.order f).isLE = true :=
  pairwise_mergeSort_cmp _

/-! ## Canonical patches -/

/-- A patch as normalizing leaves it: blocks and buses ascend by id, and the edges are enabled and in their order. -/
structure Canonical (p : Patch) : Prop where
  blocks : p.blocks.Pairwise fun a b => a.id < b.id
  buses : p.buses.Pairwise fun a b => a.id < b.id
  enabled : ∀ e ∈ p.edges, e.enabled = true
  ordered : p.edges.Pairwise fun e f => (e.order f).isLE = true

/-- A normalized patch is canonical. -/
theorem canonical_normalize (p : Patch) (r : Registry) : (p.normalize r).1.toPatch.Canonical where
  blocks := ascending_sortedById p.blocks
  buses := ascending_sortedById p.buses
  enabled := by
    intro e he
    exact (mem_sortedEdges.1 he).2
  ordered := p.ordered_sortedEdges

namespace Canonical

variable (h : p.Canonical)

include h

/-- The blocks of a canonical patch are sorted already. -/
theorem sortedBlocks_eq : p.sortedBlocks = p.blocks := sortedById_eq_self h.blocks

/-- So are its buses. -/
theorem sortedBuses_eq : p.sortedBuses = p.buses := sortedById_eq_self h.buses

/-- Nothing is switched off, and a stable sort does not move what is in order. -/
theorem sortedEdges_eq : p.sortedEdges = p.edges := by
  rw [sortedEdges, List.filter_eq_self.2 h.enabled]
  exact List.mergeSort_of_pairwise h.ordered

/-- A canonical patch that leaves no input to its default is its own normal form, and makes no constant. -/
theorem normalize_eq (hopen : p.blocks.zipIdx.flatMap (fun x => openInputs r p.edges ⟨x.2⟩ x.1) = []) :
    p.normalize r = (⟨p.blocks, p.buses, p.edges, p.settings, []⟩, {}) := by
  rw [normalize, h.sortedBlocks_eq, h.sortedBuses_eq, h.sortedEdges_eq, hopen]
  rfl

end Canonical

theorem canonical_iff : p.Canonical ↔ (p.blocks.Pairwise fun a b => a.id < b.id) ∧ (p.buses.Pairwise fun a b => a.id < b.id)
    ∧ (∀ e ∈ p.edges, e.enabled = true) ∧ p.edges.Pairwise fun e f => (e.order f).isLE = true := by
  constructor
  · intro h
    exact ⟨h.blocks, h.buses, h.enabled, h.ordered⟩
  · rintro ⟨hblocks, hbuses, henabled, hordered⟩
    exact ⟨hblocks, hbuses, henabled, hordered⟩

instance : Decidable p.Canonical := decidable_of_iff _ canonical_iff.symm

/-- Normalizing leaves exactly the canonical patches as they are. -/
theorem toPatch_normalize_eq_iff : (p.normalize r).1.toPatch = p ↔ p.Canonical := by
  constructor
  · intro h
    have hcanonical := p.canonical_normalize r
    rwa [h] at hcanonical
  · intro h
    show Patch.mk p.sortedBlocks p.sortedEdges p.sortedBuses p.settings = p
    rw [h.sortedBlocks_eq, h.sortedBuses_eq, h.sortedEdges_eq]

/-- Normalizing looks at nothing but the sorted parts and the settings: the defaults and their constants follow from them. -/
theorem normalize_congr (hblocks : p.sortedBlocks = q.sortedBlocks) (hbuses : p.sortedBuses = q.sortedBuses)
    (hedges : p.sortedEdges = q.sortedEdges) (hsettings : p.settings = q.settings) (r : Registry) :
    p.normalize r = q.normalize r := by
  unfold normalize
  rw [hblocks, hbuses, hedges, hsettings]

/-- A normalized patch is canonical, and to normalize it a second time changes nothing: not its blocks, buses, edges and settings, not its
defaults and not the constants they stand for. Blocks, buses and defaults are looked up in what is equal here, so each is found where it
was. This holds of every patch, also of one with repeated ids and with edges that are switched off. -/
theorem normalize_idempotent (p : Patch) (r : Registry) :
    let once := p.normalize r
    let twice := once.1.toPatch.normalize r
    once.1.toPatch.Canonical ∧ twice = once := by
  intro once twice
  have hcanonical : once.1.toPatch.Canonical := p.canonical_normalize r
  have hsame : twice.1.toPatch = once.1.toPatch := toPatch_normalize_eq_iff.2 hcanonical
  have htwice : once.1.toPatch.normalize r = p.normalize r := by
    apply normalize_congr
    · exact congrArg Patch.blocks hsame
    · exact congrArg Patch.buses hsame
    · exact congrArg Patch.edges hsame
    · rfl
  exact ⟨hcanonical, htwice⟩

end Patch

end PatchGraph
