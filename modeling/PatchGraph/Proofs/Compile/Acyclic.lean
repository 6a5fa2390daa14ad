import PatchGraph.Proofs.Compile.BusSlots
import PatchGraph.Proofs.Compile.Stages
import PatchGraph.Proofs.Graph.Order
import PatchGraph.Proofs.Registry.Loaded

/-!
# Evaluation without cycles ends

A block reads the slots of buses before they have a source, so the order of the tables does not tell that an evaluation ends. But in a
patch without cycles the nodes can be ordered: what a block makes reads only slots of buses that come before it, and so does the
source of the slot of a bus (`Lowered.Evaluable`). By induction on the order, the evaluation of every expression ends.
-/

namespace PatchGraph

/-! ## Nodes in order -/

/-- The nodes before a node in a list. -/
def before (us : List Nat) (u : Nat) : List Nat := us.takeWhile (· ≠ u)

/-- What comes before a node in an order without repeats. -/
theorem before_eq {us front back : List Nat} {u : Nat} (hnodup : us.Nodup) (hsplit : us = front ++ u :: back) :
    before us u = front := by
  have hfront : ∀ v ∈ front, decide (v ≠ u) = true := by
    intro v hv
    rw [hsplit] at hnodup
    simpa using (List.nodup_append.1 hnodup).2.2 v hv u (List.mem_cons_self ..)
  rw [before, hsplit, List.takeWhile_append_of_pos hfront]
  simp

/-- The nodes before one of the first nodes are fewer of the first nodes. -/
theorem before_of_mem {us front back : List Nat} {u : Nat} (hnodup : us.Nodup) (hsplit : us = front ++ back) (hu : u ∈ front) :
    (∃ after, us = before us u ++ u :: after) ∧ (∀ v ∈ before us u, v ∈ front) ∧ (before us u).length < front.length := by
  obtain ⟨first, rest, rfl⟩ := List.append_of_mem hu
  have hsplit' : us = first ++ u :: (rest ++ back) := by simpa using hsplit
  rw [before_eq hnodup hsplit']
  refine ⟨⟨rest ++ back, hsplit'⟩, fun v hv => List.mem_append_left _ hv, ?_⟩
  simp

namespace Analysis

/-- Each node comes after what it is made of. -/
structure Ordered (a : Analysis) : Prop where
  blockCount : a.graph.blockCount = a.patch.blocks.length
  nodup : a.order.Nodup
  bus : ∀ ix : BusIx, ix.index < a.patch.buses.length → a.patch.blocks.length + ix.index ∈ a.order
  writer : ∀ ix : BlockIx, ix.index < a.patch.blocks.length → ∀ port, ∀ x ∈ a.patch.writers ix port,
    ∀ u, a.patch.writerNode? x = some u → u ∈ before a.order ix.index
  publisher : ∀ (ix : BusIx) (b : Bus), a.patch.bus? ix = some b → ∀ x ∈ a.patch.publishers b.id,
    ∀ u, a.patch.writerNode? x = some u → u ∈ before a.order (a.patch.blocks.length + ix.index)

/-- The slot of a node, if it is a bus that has one. -/
def busSlot? (a : Analysis) (slots : BusSlots) (u : Nat) : Option SlotId :=
  match a.graph.node u with
  | .bus ix => slots[ix.index]?.join
  | .block _ => none

/-- The slots of the buses among nodes. -/
def slotsOf (a : Analysis) (slots : BusSlots) (us : List Nat) : List SlotId := us.filterMap (a.busSlot? slots)

variable {a : Analysis} {slots : BusSlots}

/-- More nodes have more slots. -/
theorem slotsOf_mono {us vs : List Nat} (h : ∀ u ∈ us, u ∈ vs) : ∀ s ∈ a.slotsOf slots us, s ∈ a.slotsOf slots vs := by
  intro s hs
  obtain ⟨u, hu, hslot⟩ := List.mem_filterMap.1 hs
  exact List.mem_filterMap.2 ⟨u, h u hu, hslot⟩

/-- The slot of a bus among some nodes is one of their slots. -/
theorem Ordered.mem_slotsOf (ha : a.Ordered) {us : List Nat} {ix : BusIx} (hu : a.patch.blocks.length + ix.index ∈ us) {s : SlotId}
    (hs : slots[ix.index]?.join = some s) : s ∈ a.slotsOf slots us := by
  refine List.mem_filterMap.2 ⟨_, hu, ?_⟩
  have hnode : a.graph.node (a.patch.blocks.length + ix.index) = .bus ix := by simp [DependencyGraph.node, ha.blockCount]
  rw [busSlot?, hnode]
  exact hs

/-- A slot of some nodes is the slot of a bus among them. -/
theorem Ordered.exists_bus (ha : a.Ordered) {us : List Nat} {s : SlotId} (hs : s ∈ a.slotsOf slots us) :
    ∃ ix : BusIx, a.patch.blocks.length + ix.index ∈ us ∧ slots[ix.index]?.join = some s := by
  obtain ⟨u, hu, hslot⟩ := List.mem_filterMap.1 hs
  unfold busSlot? DependencyGraph.node at hslot
  rw [ha.blockCount] at hslot
  split at hslot
  · rename_i ix hnode
    split at hnode
    · cases hnode
    · obtain rfl := Node.bus.inj hnode
      refine ⟨_, ?_, hslot⟩
      have hsum : a.patch.blocks.length + (u - a.patch.blocks.length) = u := by omega
      rwa [hsum]
  · cases hslot

/-- The slots of the buses before a node. -/
abbrev slotsBefore (a : Analysis) (slots : BusSlots) (u : Nat) : List SlotId := a.slotsOf slots (before a.order u)

/-- The slots before an earlier node are among those of the front. -/
theorem Ordered.slotsBefore_mono (ha : a.Ordered) {front back : List Nat} (hsplit : a.order = front ++ back) {u : Nat}
    (hu : u ∈ front) : ∀ s ∈ a.slotsBefore slots u, s ∈ a.slotsOf slots front :=
  slotsOf_mono (before_of_mem ha.nodup hsplit hu).2.1

/-- The slots before a node are slots of buses. -/
theorem slotsBefore_subset (u : Nat) : ∀ s ∈ a.slotsBefore slots u, s ∈ a.slotsOf slots a.order :=
  slotsOf_mono fun _ hv => (List.takeWhile_sublist _).subset hv

end Analysis

namespace Regime

variable {a : Analysis} {slots : BusSlots}

/-- The regime of what a node makes: it reads no slots but those of the buses before it. -/
abbrev upTo (a : Analysis) (slots : BusSlots) (u : Nat) : Regime := draws (a.slotsOf slots a.order) (a.slotsBefore slots u)

/-- The lowerings and transforms of a standard registry draw on no more slots than they may. -/
theorem lawful_draws {all now : List SlotId} (hr : a.registry.Standard) (hall : ∀ s ∈ now, s ∈ all) : (draws all now).Lawful a :=
  (stateful_draws hall).lawful hr (fun _ _ => raw_const.2 nofun) (fun hb hs => readSlot_draws hall hb hs) False.elim

/-- What is confined stays so while expressions are only added, also where more slots may be read. -/
theorem raw_draws_imp {all all' now now' : List SlotId} {b b' : Builder} (hkeeps : b.finish.Keeps b'.finish)
    (hnow : ∀ s ∈ now, s ∈ now') {v : ValueRef} (hv : (draws all now).Raw b v) : (draws all' now').Raw b' v :=
  ⟨fun n hn x hx => (hv.1 n hn x hx).imp hkeeps hnow, False.elim⟩

end Regime

/-! ## Blocks -/

/-- The first nodes were lowered, and what each of them made reads no slots but those of the buses before it. -/
structure Visited.InOrder (a : Analysis) (slots : BusSlots) (front : List Nat) (v : Visited) (b : Builder) : Prop where
  draws : b.Draws (a.slotsOf slots a.order)
  forwards : v.forwards = []
  known : ∀ ix : BlockIx, ix.index ∈ front → ix.index < a.patch.blocks.length → (v.outcomes.lookup ix).isSome = true
  outcomes : ∀ x ∈ v.outcomes, x.1.index ∈ front ∧ (Regime.upTo a slots x.1.index).Outcome a x.1 x.2 b

section Blocks

variable {a : Analysis} {slots : BusSlots} (ha : a.Ordered) (hr : a.registry.Standard) {front back : List Nat} {v : Visited}
  {w : Workbench}

/-- What a block may be lowered from if the nodes before it were. -/
def Analysis.scope (a : Analysis) (slots : BusSlots) (front : List Nat) : Scope where
  base := a.slotsOf slots front
  Known ix := ix.index ∈ front ∧ ix.index < a.patch.blocks.length
  Forward _ := False

include ha

/-- All that a block is made of comes before it, so no slot is reserved for an output. -/
theorem Analysis.Ordered.admits {ix : BlockIx} (hix : ix.index < a.patch.blocks.length) {port : String} {x : Writer}
    (hx : x ∈ a.patch.writers ix port) : (a.scope slots (before a.order ix.index)).Admits a slots x := by
  have hwriter := ha.writer ix hix port x hx
  cases x with
  | wire i id b output => exact .inl ⟨hwriter b.index rfl, Normalized.lt_of_mem_writers hx⟩
  | bus i id b => exact fun s hs => ha.mem_slotsOf (hwriter _ rfl) hs
  | fallback id c => trivial

/-- What was visited in order is in the scope of the next node. -/
theorem Visited.InOrder.good {u : Nat} (hsplit : a.order = front ++ u :: back) (hv : v.InOrder a slots front w.builder) :
    (Regime.upTo a slots u).Good a (a.scope slots (before a.order u)) v w.builder := by
  have hfront := before_eq ha.nodup hsplit
  rw [Regime.upTo, Analysis.slotsBefore, hfront]
  refine ⟨⟨fun s hs => ?_, hv.draws⟩, fun x hx => ?_, fun f hf => ?_, fun ix hix => hv.known ix hix.1 hix.2, ?_, False.elim⟩
  · rw [hv.forwards, List.map_nil, List.append_nil] at hs
    exact hs
  · obtain ⟨hmem, hout⟩ := hv.outcomes x hx
    exact hout.imp False.elim fun y hy => Regime.raw_draws_imp (fun _ _ h => h) (ha.slotsBefore_mono hsplit hmem) hy
  · rw [hv.forwards] at hf
    cases hf
  · rw [hv.forwards]
    exact .nil

include hr

/-- A block is lowered after all it is made of. -/
theorem Visited.InOrder.lowerBlock {ix : BlockIx} (hix : ix.index < a.patch.blocks.length) (hsplit : a.order = front ++ ix.index :: back)
    (hv : v.InOrder a slots front w.builder) :
    let s := ((Visit.lowerBlock a slots ix).run v).run w
    Visited.InOrder a slots (front ++ [ix.index]) { s.1.2 with outcomes := s.1.2.outcomes ++ [(ix, s.1.1)] } s.2.builder
      ∧ w.builder.Prefix s.2.builder := by
  intro s
  have hlowered := Regime.visits_lowerBlock (Regime.lawful_draws hr (Analysis.slotsBefore_subset ix.index))
    (S := a.scope slots (before a.order ix.index)) nofun (fun _ x hx => ha.admits hix hx) (hv.good ha hsplit)
  refine ⟨⟨hlowered.good.inv.2, ?_, ?_, ?_⟩, hlowered.le⟩
  · exact List.eq_nil_iff_forall_not_mem.2 fun f hf => hlowered.good.forwards f hf
  · intro b hb hlt
    dsimp only
    rw [List.lookup_append, Option.isSome_or, hlowered.outcomes]
    rcases List.mem_append.1 hb with hb | hb
    · rw [hv.known b hb hlt, Bool.true_or]
    · have heq : b = ix := congrArg BlockIx.mk (List.mem_singleton.1 hb)
      simp [heq]
  · dsimp only
    rw [hlowered.outcomes]
    refine List.forall_mem_append.2 ⟨fun x hx => ?_, List.forall_mem_singleton.2 ?_⟩
    · obtain ⟨hmem, hout⟩ := hv.outcomes x hx
      refine ⟨List.mem_append_left _ hmem, hout.imp False.elim fun y hy => ?_⟩
      exact Regime.raw_draws_imp hlowered.le.keeps (fun _ h => h) hy
    · exact ⟨List.mem_append_right _ (List.mem_singleton_self _), hlowered.result⟩

/-- All nodes that are left. -/
theorem Visited.InOrder.lowerNodes (hsplit : a.order = front ++ back) (hv : v.InOrder a slots front w.builder) :
    let s := ((Visit.lowerNodes a slots back).run v).run w
    s.1.2.InOrder a slots a.order s.2.builder ∧ w.builder.Prefix s.2.builder := by
  induction back generalizing front v w with
  | nil =>
    rw [List.append_nil] at hsplit
    rw [hsplit]
    exact ⟨hv, .refl _⟩
  | cons u rest ih =>
    have hnext : a.order = (front ++ [u]) ++ rest := by simpa using hsplit
    unfold Visit.lowerNodes
    split
    · rename_i hnode
      refine ih hnext ⟨hv.draws, hv.forwards, fun ix hix hlt => ?_, fun x hx => ?_⟩
      · rcases List.mem_append.1 hix with hix | hix
        · exact hv.known ix hix hlt
        · obtain rfl := List.mem_singleton.1 hix
          rw [DependencyGraph.node, ha.blockCount, if_pos hlt] at hnode
          cases hnode
      · exact ⟨List.mem_append_left _ (hv.outcomes x hx).1, (hv.outcomes x hx).2⟩
    · rename_i ix hnode
      unfold DependencyGraph.node at hnode
      split at hnode
      case isFalse => cases hnode
      rename_i hlt
      obtain rfl := Node.block.inj hnode
      rw [ha.blockCount] at hlt
      obtain ⟨hstep, hgrows⟩ := hv.lowerBlock ha hr hlt hsplit
      obtain ⟨hall, hgrows'⟩ := ih hnext hstep
      exact ⟨hall, hgrows.trans hgrows'⟩

end Blocks

/-! ## Buses -/

/-- What the blocks made, and the sources that some buses already have, reads no slots but those of the buses before them. -/
structure Lowered.Evaluable (a : Analysis) (slots : BusSlots) (l : Lowered) (settled : List BusIx) (b : Builder) : Prop where
  draws : b.Draws (a.slotsOf slots a.order)
  outcomes : ∀ ix, (Regime.upTo a slots ix.index).Outcome a ix (l.outcome ix) b
  reserved : ∀ (i : Nat) (s : SlotId), slots[i]?.join = some s → s.index < b.slots.size
  sources : ∀ ix ∈ settled, ∀ s, slots[ix.index]?.join = some s → ∀ slot, b.slots[s.index]? = some slot →
    ∀ x, slot.source.expr? = some x → b.finish.Confined (a.slotsBefore slots (a.patch.blocks.length + ix.index)) x

namespace Lowered.Evaluable

variable {a : Analysis} {slots : BusSlots} {l : Lowered} {settled : List BusIx} {b b' : Builder} {w : Workbench}

/-- Further expressions and slots change nothing. -/
theorem grow (h : l.Evaluable a slots settled b) (hgrows : b.Prefix b') (hdraws : b'.Draws (a.slotsOf slots a.order)) :
    l.Evaluable a slots settled b' where
  draws := hdraws
  outcomes ix := (h.outcomes ix).imp False.elim fun _ hv => Regime.raw_draws_imp hgrows.keeps (fun _ h => h) hv
  reserved i s hs := by
    have hle := hgrows.slots.length_le
    rw [Array.length_toList, Array.length_toList] at hle
    exact Nat.lt_of_lt_of_le (h.reserved i s hs) hle
  sources ix hix s hs slot hslot x hx := by
    have hlt := h.reserved ix.index s hs
    have hold : b.slots[s.index]? = some b.slots[s.index] := Array.getElem?_eq_getElem hlt
    have hsame := getElem?_of_prefix hgrows.slots (Array.getElem?_toList.trans hold)
    rw [Array.getElem?_toList, hslot] at hsame
    obtain rfl := Option.some.inj hsame
    exact (h.sources ix hix s hs _ hold x hx).imp hgrows.keeps fun _ h => h

/-- A bus gets a source that reads no slots but those of the buses before it. -/
theorem bind (hinjective : ∀ (i j : Nat) (s : SlotId), slots[i]?.join = some s → slots[j]?.join = some s → i = j)
    (h : l.Evaluable a slots settled b) {ix : BusIx} {s : SlotId} (hs : slots[ix.index]?.join = some s) {v : ValueRef}
    {source : SlotSource} (hv : (Regime.upTo a slots (a.patch.blocks.length + ix.index)).Raw b v) (hsource : v.source? = some source) :
    l.Evaluable a slots (settled ++ [ix]) ((Build.bind s source).run b).2 := by
  have hkeeps : b.finish.Keeps ((Build.bind s source).run b).2.finish := by
    intro x names hx
    rw [Build.names?_bind]
    exact hx
  refine ⟨fun x names hx => ?_, fun jx => ?_, fun i t ht => ?_, fun jx hjx t ht slot hslot x hx => ?_⟩
  · rw [Build.names?_bind] at hx
    exact (h.draws x names hx).imp hkeeps fun _ h => h
  · exact (h.outcomes jx).imp False.elim fun _ hv => Regime.raw_draws_imp hkeeps (fun _ h => h) hv
  · have hsome : (((Build.bind s source).run b).2.slots[t.index]?).isSome = true := by
      have hold := Array.getElem?_eq_getElem (h.reserved i t ht)
      rw [Build.slots_bind, hold]
      split <;> rfl
    simpa using hsome
  · rw [Build.slots_bind] at hslot
    split at hslot
    · -- the slot that was bound is that of the bus itself
      rename_i heq
      obtain ⟨old, -, rfl⟩ := Option.map_eq_some_iff.1 hslot
      obtain rfl : t = s := congrArg SlotId.mk heq
      rw [hinjective jx.index ix.index t ht hs]
      obtain ⟨n, hn, hnx⟩ := ValueRef.mem_names_of_source hsource hx
      exact (hv.1 n hn x hnx).imp hkeeps fun _ h => h
    · rename_i hne
      have hold : jx ∈ settled := by
        rcases List.mem_append.1 hjx with hjx | hjx
        · exact hjx
        · obtain rfl := List.mem_singleton.1 hjx
          obtain rfl := Option.some.inj (hs.symm.trans ht)
          exact absurd rfl hne
      exact (h.sources jx hold t ht slot hslot x hx).imp hkeeps fun _ h => h

variable (ha : a.Ordered) (hr : a.registry.Standard) (htyped : a.SlotsTyped slots)
  (hinjective : ∀ (i j : Nat) (s : SlotId), slots[i]?.join = some s → slots[j]?.join = some s → i = j)

include ha in
/-- What a publisher gives to a bus reads no slots but those of the buses before that bus. -/
theorem written {ix : BusIx} {bus : Bus} (hbus : a.patch.bus? ix = some bus) (h : l.Evaluable a slots settled b) {x : Writer}
    (hx : x ∈ a.patch.publishers bus.id) {v : ValueRef} (hv : v ∈ l.written? x) :
    (Regime.upTo a slots (a.patch.blocks.length + ix.index)).Raw b v := by
  have hbefore := ha.publisher ix bus hbus x hx
  cases x with
  | bus i id jx => cases hv
  | fallback id c => cases hv
  | wire i id block output =>
    obtain ⟨outputs, houtputs, hv⟩ := Option.bind_eq_some_iff.1 hv
    have hraw := (h.outcomes block).raw houtputs v (Dict.mem_values_of_get? hv)
    have hmem : block.index ∈ before a.order (a.patch.blocks.length + ix.index) := hbefore _ rfl
    have hsplit : a.order = before a.order (a.patch.blocks.length + ix.index)
        ++ a.order.dropWhile (· ≠ a.patch.blocks.length + ix.index) := List.takeWhile_append_dropWhile.symm
    exact Regime.raw_draws_imp (fun _ _ h => h) (ha.slotsBefore_mono hsplit hmem) hraw

include ha hr htyped hinjective

/-- To lower one more bus keeps the evaluation of the others finite. -/
theorem lower {ix : BusIx} {bus : Bus} (hbus : a.patch.bus? ix = some bus) (h : l.Evaluable a slots settled w.builder) :
    l.Evaluable a slots (settled ++ [ix]) ((BusValue.lower a slots l ix bus).run w).2.builder := by
  cases hs : slots[ix.index]?.join with
  | none =>
    rw [Regime.builder_lower_of_none bus hs]
    refine ⟨h.draws, h.outcomes, h.reserved, fun jx hjx s hjs => ?_⟩
    rcases List.mem_append.1 hjx with hjx | hjx
    · exact h.sources jx hjx s hjs
    · obtain rfl := List.mem_singleton.1 hjx
      cases hs.symm.trans hjs
  | some s =>
    have hall : ∀ s ∈ a.slotsBefore slots (a.patch.blocks.length + ix.index), s ∈ a.slotsOf slots a.order :=
      Analysis.slotsBefore_subset _
    have hinv : (Regime.upTo a slots (a.patch.blocks.length + ix.index)).Inv [] w.builder := ⟨nofun, h.draws⟩
    obtain ⟨b, v, source, hinv, hgrows, hraw, hsource, -, hrun⟩ := Regime.settles_lower (Regime.lawful_draws hr hall).toRouted htyped
      False.elim bus hs hinv fun x hx v hv => h.written ha hbus hx hv
    rw [hrun]
    exact (h.grow hgrows hinv.2).bind hinjective hs hraw hsource

/-- To lower buses one after the other keeps all evaluations finite. -/
theorem lowerAll {buses : List (BusIx × Bus)} (hbuses : ∀ x ∈ buses, a.patch.bus? x.1 = some x.2)
    (h : l.Evaluable a slots settled w.builder) :
    l.Evaluable a slots (settled ++ buses.map (·.1)) ((BusValue.lowerAll a slots l buses).run w).2.builder := by
  induction buses generalizing settled w with
  | nil =>
    rw [List.map_nil, List.append_nil]
    exact h
  | cons x rest ih =>
    obtain ⟨hx, hrest⟩ := List.forall_mem_cons.1 hbuses
    have hnext := ih hrest (h.lower ha hr htyped hinjective hx)
    rw [List.append_assoc] at hnext
    exact hnext

omit htyped hinjective ha

/-- Linking adds inputs that may read any bus, and gives no slot another source. -/
theorem linkInputs (hforwards : l.forwards = []) (hslots : ∀ s ∈ slots.filterMap id, s ∈ a.slotsOf slots a.order)
    (h : l.Evaluable a slots settled w.builder) : l.Evaluable a slots settled ((a.linkInputs slots l).run w).2.builder := by
  have hinv : (Regime.draws (a.slotsOf slots a.order) (a.slotsOf slots a.order)).Inv (slots.filterMap id ++ []) w.builder := by
    rw [List.append_nil]
    exact ⟨hslots, h.draws⟩
  have hlowers : (Regime.draws (a.slotsOf slots a.order) (a.slotsOf slots a.order)).Lowers a l w.builder :=
    fun ix => (h.outcomes ix).imp False.elim fun _ hv => Regime.raw_draws_imp (fun _ _ h => h) (Analysis.slotsBefore_subset ix.index) hv
  obtain ⟨hinv', hgrows, -⟩ := Regime.emits_allInputs (Regime.lawful_draws hr fun _ h => h).toRouted (a.patch.placedBlocks.map (·.1)) hinv
    hlowers
  unfold Analysis.linkInputs
  rw [hforwards]
  exact h.grow hgrows hinv'.2

omit hr

include ha in
/-- If all buses have their sources, the evaluation of every expression ends. -/
theorem wellFounded (h : l.Evaluable a slots settled b)
    (hall : ∀ (ix : BusIx) (s : SlotId), slots[ix.index]?.join = some s → ix ∈ settled) : WellFounded fun y x => b.finish.Needs x y := by
  -- the slots of the first nodes of the order are read before those of the later ones
  have hfront : ∀ (k : Nat) (front back : List Nat), front.length = k → a.order = front ++ back →
      ∀ x, b.finish.Confined (a.slotsOf slots front) x → Acc (fun y x => b.finish.Needs x y) x := by
    intro k
    induction k using Nat.strongRecOn with
    | ind k ih =>
      intro front back hlength hsplit x hx
      refine hx.acc fun s hs slot hslot y hy => ?_
      obtain ⟨ix, hix, hbus⟩ := ha.exists_bus hs
      obtain ⟨⟨after, hsplit'⟩, -, hshorter⟩ := before_of_mem ha.nodup hsplit hix
      have hslot : b.slots[s.index]? = some slot := Array.getElem?_toList.symm.trans hslot
      exact ih _ (hlength ▸ hshorter) _ _ rfl hsplit' y (h.sources ix (hall ix s hbus) s hbus slot hslot y hy)
  refine ⟨fun x => ?_⟩
  cases hx : b.finish.names? x with
  | none =>
    refine Acc.intro x fun y hy => ?_
    cases hy with
    | operand hx' _ _ => cases hx.symm.trans hx'
    | source hx' _ _ _ => cases hx.symm.trans hx'
  | some names => exact hfront _ a.order [] rfl (List.append_nil _).symm x (h.draws x names hx)

end Lowered.Evaluable

/-! ## Programs of patches without cycles -/

/-- A schedule does not change what expressions need. -/
theorem Program.Needs.of_schedule {b : Builder} {schedule : Array ScheduleStep} {x y : Expr}
    (h : Program.Needs ({ b with schedule } : Builder).finish x y) : b.finish.Needs x y := by
  have hnames : ({ b with schedule } : Builder).finish.names? x = b.finish.names? x := by cases x <;> rfl
  cases h with
  | operand hx hn hy => exact .operand (hnames.symm.trans hx) hn hy
  | source hx hs hslot hy => exact .source (hnames.symm.trans hx) hs hslot hy

section Emission

variable {a : Analysis} {slots : BusSlots} {w : Workbench} (ha : a.Ordered) (hr : a.registry.Standard)

include ha hr

/-- What lowering the blocks makes, from the slots of the buses alone. -/
theorem Analysis.Ordered.evaluable_lowerBlocks (hreserved : a.Reserved slots w.builder) :
    let r := (a.lowerBlocks slots).run w
    r.1.forwards = [] ∧ r.1.Evaluable a slots [] r.2.builder := by
  have hdraws : w.builder.Draws (a.slotsOf slots a.order) := fun x names hx => nomatch (hreserved.empty x).symm.trans hx
  have hstart : Visited.InOrder a slots [] {} w.builder := ⟨hdraws, rfl, nofun, nofun⟩
  obtain ⟨hvisited, hgrows⟩ := hstart.lowerNodes ha hr (List.nil_append _).symm
  refine ⟨hvisited.forwards, hvisited.draws, fun ix => ?_, fun i s hs => ?_, nofun⟩
  · rcases Lowered.outcome_mem (l := ((a.lowerBlocks slots).run w).1) rfl ix with hskipped | hmem
    · rw [hskipped]
      exact .skipped ix _
    · exact (hvisited.outcomes _ hmem).2
  · have hle := hgrows.slots.length_le
    rw [Array.length_toList, Array.length_toList] at hle
    exact Nat.lt_of_lt_of_le (hreserved.isSlot i s hs) hle

/-- The evaluation of every expression of an emission ends, if each node comes after what it is made of. -/
theorem Analysis.Ordered.wellFounded_emission (hbuses : a.types.buses.length = a.patch.buses.length) (consts : Pool)
    (options : Options) : WellFounded fun y x => (a.emission consts options).linked.program.Needs x y := by
  have hreserved := a.reserved_reserveBusSlots consts
  obtain ⟨hforwards, hblocks⟩ := ha.evaluable_lowerBlocks hr (w := { builder := _ }) hreserved
  have hsettled := Lowered.Evaluable.lowerAll ha hr hreserved.typed hreserved.injective (w := { builder := _ })
    (fun x hx => Normalized.bus?_of_mem_placedBuses hx) hblocks
  rw [List.nil_append] at hsettled
  have hlinked := Lowered.Evaluable.linkInputs hr (w := { builder := _ }) hforwards ?_ hsettled
  · refine Subrelation.wf (fun {y x} hneeds => ?_) (hlinked.wellFounded ha fun ix s hs => ?_)
    · change Program.Needs ((Linking.pushSteps ((a.emission consts options).steps a)).run _).2.finish x y at hneeds
      rw [Linking.run_pushSteps] at hneeds
      exact hneeds.of_schedule
    · obtain ⟨bus, hbus⟩ := hreserved.typed.mem_placedBuses hbuses _ hs
      exact List.mem_map.2 ⟨_, hbus, rfl⟩
  · intro s hs
    obtain ⟨o, ho, hs⟩ := List.mem_filterMap.1 hs
    obtain ⟨i, hi⟩ := List.getElem?_of_mem ho
    have hjoin := (congrArg Option.join hi).trans hs
    obtain ⟨bus, hbus⟩ := hreserved.typed.mem_placedBuses hbuses ⟨i⟩ hjoin
    obtain ⟨hlt, -⟩ := List.getElem?_eq_some_iff.1 (Normalized.bus?_of_mem_placedBuses hbus)
    exact ha.mem_slotsOf (ha.bus ⟨i⟩ hlt) hjoin

end Emission

/-- In a patch without cycles, all of whose edges are links, each node comes after what it is made of. -/
theorem Normalized.ordered {n : Normalized} {r : Registry} (hn : n.Distinct) (hdeps : n.dependencyDiagnostics r = [])
    (htrivial : ∀ k ∈ ((n.dependencies r).condense n r).components, k.trivial = true) {a : Analysis} (hpatch : a.patch = n)
    (hgraph : a.graph = n.dependencies r) (horder : a.order = (n.dependencies r).evaluationOrder n r ((n.dependencies r).condense n r)) :
    a.Ordered := by
  subst hpatch
  have hnodup := DependencyGraph.nodup_evaluationOrder (n := a.patch) (r := r) (a.patch.closed_dependencies r)
  have hbefore : ∀ {u v : Nat}, v < a.patch.blocks.length + a.patch.buses.length →
      v ∈ (a.patch.dependencies r).graph.successors u → u ∈ before a.order v := by
    intro u v hv hedge
    have hmem := mem_order (r := r) hv
    rw [← horder] at hmem hnodup
    obtain ⟨⟨after, hsplit⟩, -⟩ := before_of_mem hnodup (List.append_nil _).symm hmem
    exact mem_before_of_trivial htrivial (horder.symm.trans hsplit) hedge
  refine ⟨by rw [hgraph]; rfl, horder ▸ hnodup, fun ix hix => ?_, fun ix hix port x hx u hu => ?_, fun ix bus hbus x hx u hu => ?_⟩
  · rw [horder]
    refine mem_order ?_
    show a.patch.blocks.length + ix.index < a.patch.blocks.length + a.patch.buses.length
    omega
  · exact hbefore (by omega) (successor_of_mem_writers hn hdeps hix hx hu)
  · have hix := (List.getElem?_eq_some_iff.1 hbus).1
    exact hbefore (by omega) (successor_of_mem_publishers hn hdeps hbus hx hu)

/-- If no blocks and buses of a patch depend on each other, nor on themselves, then neither do the expressions of its program: an
expression never needs itself, directly or through its operands and the sources of the slots that are read, and its evaluation ends. -/
theorem needs_wellFounded {p : Patch} {r : Registry} (hr : r.Loaded) {options : Options} {l : Linked}
    (h : (compile p r options).linked = some l)
    (htrivial : ∀ k ∈ (((p.normalize r).1.dependencies r).condense (p.normalize r).1 r).components, k.trivial = true) :
    WellFounded (fun y x => l.program.Needs x y) ∧ ∀ x, ¬Relation.TransGen l.program.Needs x x := by
  obtain ⟨time, hpasses, hprogram⟩ := passes_of_linked h
  have hordered : (p.analysis r time).Ordered := Normalized.ordered (p.distinct_normalize r) hpasses.dependencies htrivial rfl rfl rfl
  have hwf := hordered.wellFounded_emission hr.standard (List.length_map _) (p.normalize r).2 options
  rw [← hprogram] at hwf
  refine ⟨hwf, fun x hx => ?_⟩
  exact hwf.transGen.irrefl.irrefl x (Relation.transGen_swap.2 hx)

/-- A sine that listens to a bus without publishers. -/
def listenerPatch : Patch where
  blocks := [⟨"a", "Sin", {}, {}⟩, ⟨"t", "InfiniteTimeRoot", {}, {}⟩]
  edges := [{ id := "e", source := .bus "k", target := .port "a" "in" }]
  buses := [{ id := "k", type := "Signal<float>" }]

/-- The bus gets its value after the sine was lowered, so the expression that reads its slot comes before the source of the slot. -/
theorem needs_wellFounded_listenerPatch :
    ∃ l, (compile listenerPatch .builtin {}).linked = some l
      ∧ l.program.signals[1]? = some (.read ⟨0⟩) ∧ (∃ slot, l.program.slot? ⟨0⟩ = some slot ∧ slot.source = .signal ⟨3⟩)
      ∧ WellFounded (fun y x => l.program.Needs x y) ∧ ∀ x, ¬Relation.TransGen l.program.Needs x x := by
  have hlinked : (compile listenerPatch .builtin {}).linked.any (fun l =>
      l.program.signals[1]? = some (.read ⟨0⟩) && (l.program.slot? ⟨0⟩).any (·.source = .signal ⟨3⟩)) = true := by
    decide +kernel
  obtain ⟨l, hl, hprogram⟩ := (Option.any_eq_true _ _).1 hlinked
  obtain ⟨hread, hsource⟩ := Bool.and_eq_true_iff.1 hprogram
  obtain ⟨slot, hslot, hsource⟩ := (Option.any_eq_true _ _).1 hsource
  refine ⟨l, hl, of_decide_eq_true hread, ⟨slot, hslot, of_decide_eq_true hsource⟩, needs_wellFounded .builtin hl ?_⟩
  decide +kernel

end PatchGraph
