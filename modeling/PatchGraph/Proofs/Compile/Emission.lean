import PatchGraph.Proofs.Compile.Regime
import PatchGraph.Proofs.Compile.Findings

/-!
# Emissions

An emission is all that the last three stages make of a checked patch: the lowered blocks, the buses and the linked program, with
what each stage had to say. If its elementary steps keep to a regime, so do its blocks, its program and its tables of ports.
-/

namespace PatchGraph

/-- What the last three stages make of a patch, and the program and diagnostics after each of them. -/
structure Emission where
  slots : BusSlots
  lowered : Lowered
  buses : List BusOutcome
  linked : Linked
  afterBlocks : Workbench
  afterBuses : Workbench
  afterLink : Workbench

namespace Analysis

/-- Reserve the slots of buses and lower the blocks. -/
def emitBlocks (a : Analysis) : Emit (BusSlots × Lowered) := do
  Emit.build (Build.timeModel a.time.model)
  let slots ← Emit.build (reserveBusSlots a.types.buses)
  return (slots, ← a.lowerBlocks slots)

/-- The emission of a patch, from the constants of its defaults. -/
def emission (a : Analysis) (consts : Pool) (options : Options) : Emission :=
  let blocks := a.emitBlocks.run { builder := { consts } }
  let buses := (a.lowerBuses blocks.1.1 blocks.1.2).run { builder := blocks.2.builder }
  let linked := (a.link blocks.1.1 blocks.1.2 buses.1 options).run { builder := buses.2.builder }
  ⟨blocks.1.1, blocks.1.2, buses.1, linked.1, blocks.2, buses.2, linked.2⟩

end Analysis

/-- A placed block has a place below the number of blocks. -/
theorem Normalized.lt_of_mem_placedBlocks {n : Normalized} {ix : BlockIx} {b : Block} (h : (ix, b) ∈ n.placedBlocks) :
    ix.index < n.blocks.length :=
  (List.getElem?_eq_some_iff.1 (mem_placedBlocks.1 h)).1

/-- A block that was not skipped is among those that were lowered. -/
theorem Lowered.outcome_mem {l : Lowered} {os : List (BlockIx × BlockOutcome)} {n : Nat}
    (hl : l.outcomes = (List.range n).map fun i => (os.lookup ⟨i⟩).getD .skipped) (ix : BlockIx) :
    l.outcome ix = .skipped ∨ (ix, l.outcome ix) ∈ os := by
  unfold outcome
  rw [hl, List.getElem?_map]
  by_cases hix : ix.index < n
  · rw [List.getElem?_range hix]
    cases ho : os.lookup ix with
    | none => exact Or.inl (by simp [ho])
    | some o =>
      have hmem : (ix, o) ∈ os := mem_of_lookup ho
      exact Or.inr (by simpa [ho] using hmem)
  · exact Or.inl (by simp [hix])

/-- The output that a writer starts from, if it is a wire and the output is there. -/
def Lowered.written? (l : Lowered) : Writer → Option ValueRef
  | .wire _ _ b port => l.output? b port
  | .bus _ _ _ | .fallback _ _ => none

/-- The buses that have a slot are of a type that lives in slots. -/
def Analysis.SlotsTyped (a : Analysis) (slots : BusSlots) : Prop :=
  ∀ (ix : BusIx) (s : SlotId), slots[ix.index]?.join = some s → ∃ t, a.types.busType? ix = some t ∧ t.isSlotted = true

/-- The slots of buses are of the types of the buses. -/
def Analysis.BusesTyped (a : Analysis) (slots : BusSlots) (b : Builder) : Prop :=
  ∀ (ix : BusIx) (s : SlotId) (t : ValueType), slots[ix.index]?.join = some s → a.types.busType? ix = some t → b.slotType? s = some t

/-- A slot was reserved only for buses that are there. -/
theorem Analysis.SlotsTyped.mem_placedBuses {a : Analysis} {slots : BusSlots} (htyped : a.SlotsTyped slots)
    (hbuses : a.types.buses.length = a.patch.buses.length) (ix : BusIx) {s : SlotId}
    (hs : slots[ix.index]?.join = some s) : ∃ bus, (ix, bus) ∈ a.patch.placedBuses := by
  obtain ⟨t, ht, -⟩ := htyped ix s hs
  obtain ⟨hlt, -⟩ := List.getElem?_eq_some_iff.1 (Option.join_eq_some_iff.1 ht)
  rw [hbuses] at hlt
  exact ⟨_, List.mem_map.2 ⟨(_, ix.index), List.mem_zipIdx_iff_getElem?.2 (List.getElem?_eq_getElem hlt), rfl⟩⟩

/-- A placed bus is found at its place. -/
theorem Normalized.bus?_of_mem_placedBuses {n : Normalized} {x : BusIx × Bus} (hx : x ∈ n.placedBuses) : n.bus? x.1 = some x.2 := by
  obtain ⟨⟨bus, i⟩, hbus, rfl⟩ := List.mem_map.1 hx
  exact List.mem_zipIdx_iff_getElem?.1 hbus

/-- A bus gets a slot if its type lives in one. -/
theorem run_reserveBusSlots_cons (t : Option ValueType) (rest : List (Option ValueType)) (b : Builder) :
    (reserveBusSlots (t :: rest)).run b = match t.filter (·.isSlotted) with
      | some t =>
        let r := (reserveBusSlots rest).run ((Build.reserve t).run b).2
        (some ⟨b.slots.size⟩ :: r.1, r.2)
      | none =>
        let r := (reserveBusSlots rest).run b
        (none :: r.1, r.2) := by
  cases t with
  | none => rfl
  | some t => by_cases ht : t.isSlotted = true <;> simp only [reserveBusSlots, Option.filter, ht] <;> rfl

/-- To reserve a slot leaves the types of the other slots. -/
theorem slotType?_reserve_of_some {b : Builder} {s : SlotId} {t : ValueType} (u : ValueType) (h : b.slotType? s = some t) :
    ((Build.reserve u).run b).2.slotType? s = some t := by
  obtain ⟨slot, hslot, rfl⟩ := Option.map_eq_some_iff.1 h
  show ((b.slots.push ⟨u, .unbound⟩)[s.index]?).map (·.type) = some slot.type
  rw [Array.getElem?_push_lt (Array.getElem?_eq_some_iff.1 hslot).1, (Array.getElem?_eq_some_iff.1 hslot).2]
  rfl

/-- Reserving slots for buses leaves the types of the others as they are. -/
theorem slotType?_reserveBusSlots (ts : List (Option ValueType)) {b : Builder} {s : SlotId} {t : ValueType}
    (h : b.slotType? s = some t) : ((reserveBusSlots ts).run b).2.slotType? s = some t := by
  induction ts generalizing b with
  | nil => exact h
  | cons u rest ih =>
    rw [run_reserveBusSlots_cons]
    split
    · exact ih (slotType?_reserve_of_some _ h)
    · exact ih h

/-- A slot is reserved only for a bus of a type that lives in slots, and it is of that type. -/
theorem typed_reserveBusSlots (ts : List (Option ValueType)) (b : Builder) {i : Nat} {s : SlotId}
    (h : ((reserveBusSlots ts).run b).1[i]?.join = some s) :
    ∃ t, ts[i]?.join = some t ∧ t.isSlotted = true ∧ ((reserveBusSlots ts).run b).2.slotType? s = some t := by
  induction ts generalizing b i with
  | nil => cases h
  | cons t rest ih =>
    rw [run_reserveBusSlots_cons] at h ⊢
    cases hslotted : t.filter (·.isSlotted) with
    | some u =>
      rw [hslotted] at h
      cases i with
      | zero =>
        obtain ⟨rfl, hu⟩ := Option.filter_eq_some_iff.1 hslotted
        obtain rfl := Option.some.inj h
        exact ⟨u, rfl, hu, slotType?_reserveBusSlots rest (Build.slotType?_reserve b u)⟩
      | succ i => exact ih _ h
    | none =>
      rw [hslotted] at h
      cases i with
      | zero => cases h
      | succ i => exact ih _ h

/-- What is known of the slots of the buses when they were reserved. -/
theorem Analysis.typed_busSlots (a : Analysis) (b : Builder) :
    let r := (reserveBusSlots a.types.buses).run b
    a.SlotsTyped r.1 ∧ a.BusesTyped r.1 r.2 := by
  refine ⟨fun ix s hs => ?_, fun ix s t hs ht => ?_⟩
  · obtain ⟨t, ht, hslotted, -⟩ := typed_reserveBusSlots a.types.buses b hs
    exact ⟨t, ht, hslotted⟩
  · obtain ⟨u, hu, -, hslot⟩ := typed_reserveBusSlots a.types.buses b hs
    obtain rfl := Option.some.inj (ht.symm.trans hu)
    exact hslot

/-- Every type that lives in slots has a default. -/
theorem BusValue.returns_default {t : ValueType} (ht : t.isSlotted = true) (value : Option Value) :
    (BusValue.default t value).Returns fun o => o.isSome = true := by
  have hzero : t.representation = .signal ∨ t.representation = .field → t.domain.zero?.isSome = true := by
    unfold ValueType.representation
    cases t.domain <;> simp [Domain.zero?]
  have hvalue : t.representation = .signal ∨ t.representation = .field → ∃ v, value.or t.domain.zero? = some v := by
    intro hr
    obtain ⟨z, hz⟩ := Option.isSome_iff_exists.1 (hzero hr)
    rw [hz]
    cases value <;> exact ⟨_, rfl⟩
  unfold BusValue.default
  split
  · exact fun _ => rfl
  · obtain ⟨v, hv⟩ := hvalue (.inl ‹_›)
    rw [hv]
    exact fun _ => rfl
  · obtain ⟨v, hv⟩ := hvalue (.inr ‹_›)
    rw [hv]
    exact fun _ => rfl
  all_goals
    rename_i hr
    rw [ValueType.isSlotted, hr] at ht
    exact absurd ht Bool.false_ne_true

/-- A default has the form that its type asks for. -/
theorem BusValue.returns_default_fits (t : ValueType) (value : Option Value) :
    (BusValue.default t value).Returns fun o => ∀ v ∈ o, t.Fits v := by
  have hnone : Build.Returns (pure none) fun o => ∀ v ∈ o, t.Fits v := .pure fun v hv => absurd hv (Option.not_mem_none v)
  unfold BusValue.default
  split
  · exact fun b v hv => .of_mem ‹_› hv rfl
  · split
    · exact hnone
    · exact fun b v hv => .of_mem ‹_› hv rfl
  · split
    · exact hnone
    · exact fun b v hv => .of_mem ‹_› hv rfl
  all_goals exact hnone

namespace Regime

variable {α β : Type} (R : Regime) (a : Analysis)

/-- What holds of the lowered blocks of a patch. -/
def Lowers (l : Lowered) (b : Builder) : Prop := ∀ ix, R.Outcome a ix (l.outcome ix) b

/-- What holds of the slots that were reserved for outputs; if slots keep their types, they are of the types of these outputs. -/
structure Forwards (fs : List ForwardSlot) (b : Builder) : Prop where
  canForward : ∀ f ∈ fs, a.CanForward f
  reserved : R.Steady → ∀ f ∈ fs, ∃ t, a.types.outputType? f.block f.port = some t ∧ b.slotType? f.slot = some t

/-- A step gives a slot its source, the last thing it does to the builder, and keeps to the regime before. -/
def Settles (reserved : List SlotId) (slot : SlotId) (m : Emit α) (w : Workbench) : Prop :=
  ∃ b v source, R.Inv reserved b ∧ R.Le w.builder b ∧ R.Raw b v ∧ v.source? = some source
    ∧ (R.Strict → ∃ t, b.slotType? slot = some t ∧ t.Fits v) ∧ (m.run w).2.builder = ((Build.bind slot source).run b).2

/-- What holds of a linked program. -/
structure Links (k : Linked) (b : Builder) : Prop where
  program : k.program = b.finish
  blockIds : k.blockIds = a.patch.blocks.map (·.id)
  inputs : ∀ p ∈ k.inputs, p.block.index < a.patch.blocks.length ∧ ∃ t, p.type = some t ∧ R.Typed t b p.value
  outputs : ∀ p ∈ k.outputs, p.block.index < a.patch.blocks.length ∧ R.Raw b p.value

variable {R a} in
/-- A block that is skipped has no outputs, so nothing is asked of them. -/
theorem Outcome.skipped (ix : BlockIx) (b : Builder) : R.Outcome a ix .skipped b := .of_inputs (Inputs.empty ix b) rfl

variable {R a} {w : Workbench} {slots : BusSlots} (L : R.Routed a)

include L

omit L in
/-- Every input of a linked program has a type and a value of the form it asks for. -/
theorem Links.inputsTyped {k : Linked} {b : Builder} (h : R.Links a k b) : k.inputsTyped = true := by
  refine List.all_eq_true.2 fun p hp => ?_
  obtain ⟨-, t, ht, htyped⟩ := h.inputs p hp
  rw [ht]
  exact htyped.2

/-! ## Blocks -/

/-- Lowered blocks stay lawful when more is built. -/
theorem Lowers.mono {l : Lowered} {b b' : Builder} (h : R.Le b b') (hl : R.Lowers a l b) : R.Lowers a l b' :=
  fun ix => Outcome.mono L h (hl ix)

omit L in
/-- The output of a lowered block is usable. -/
theorem Lowers.output {l : Lowered} {b : Builder} (hl : R.Lowers a l b) {ix : BlockIx} {port : String} {v : ValueRef}
    (hv : l.output? ix port = some v) : R.Raw b v := by
  obtain ⟨d, hd, hv⟩ := Option.bind_eq_some_iff.1 hv
  exact (hl ix).raw hd v (Dict.mem_values_of_get? hv)

omit L in
/-- In a strict regime an output that lives in a slot has the form that its declared type asks for. -/
theorem Lowers.fits {l : Lowered} {b : Builder} (hl : R.Lowers a l b) (hstrict : R.Strict) {ix : BlockIx} {port : String}
    {t : ValueType} {v : ValueRef} {s : SlotId} (hv : l.output? ix port = some v) (hs : v.slot? = some s)
    (hport : a.types.outputType? ix port = some t) (ht : t.isSlotted = true) : t.Fits v := by
  obtain ⟨d, hd, hv⟩ := Option.bind_eq_some_iff.1 hv
  obtain ⟨ports, hports, hout⟩ := (hl ix).outputs d hd
  rw [TypeTable.outputType?, hports] at hport
  exact (hout.2 hstrict).fits hport ht hv hs

omit L in
/-- What a lowered block writes is usable. -/
theorem Lowers.written {l : Lowered} {b : Builder} (hl : R.Lowers a l b) {x : Writer} {v : ValueRef} (hv : v ∈ l.written? x) :
    R.Raw b v := by
  cases x with
  | wire edge edgeId b port => exact hl.output hv
  | bus edge edgeId b => cases hv
  | fallback id c => cases hv

/-- Reserved slots stay lawful when more is built. -/
theorem Forwards.mono {fs : List ForwardSlot} {b b' : Builder} (h : R.Le b b') (hfs : R.Forwards a fs b) : R.Forwards a fs b' := by
  refine ⟨hfs.canForward, fun hsteady f hf => ?_⟩
  obtain ⟨t, ht, hslot⟩ := hfs.reserved hsteady f hf
  exact ⟨t, ht, L.slotType hsteady h hslot⟩

omit L in
/-- Each reserved slot is lawful on its own. -/
theorem Forwards.tail {f : ForwardSlot} {fs : List ForwardSlot} {b : Builder} (hfs : R.Forwards a (f :: fs) b) : R.Forwards a fs b :=
  ⟨fun g hg => hfs.canForward g (List.mem_cons_of_mem _ hg), fun hsteady g hg => hfs.reserved hsteady g (List.mem_cons_of_mem _ hg)⟩

omit L in
/-- The blocks of a patch after all of them were visited. -/
theorem Good.lowers {S : Scope} {v : Visited} {b : Builder} {l : Lowered} {n : Nat} (hv : R.Good a S v b)
    (hl : l.outcomes = (List.range n).map fun i => (v.outcomes.lookup ⟨i⟩).getD .skipped) : R.Lowers a l b := by
  intro ix
  rcases Lowered.outcome_mem hl ix with h | h
  · rw [h]
    exact .skipped ix _
  · exact hv.outcomes _ h

omit L in
/-- At the start nothing was visited and no slot is reserved. -/
theorem good_start (hw : R.Inv (slots.filterMap id) w.builder) : R.Good a (.whole a slots) {} w.builder where
  inv := by rwa [List.map_nil, List.append_nil]
  outcomes _ hx := absurd hx List.not_mem_nil
  forwards _ hf := absurd hf List.not_mem_nil
  known := nofun
  distinct := .nil
  reserved _ _ hf := absurd hf List.not_mem_nil

omit L in
/-- To lower the blocks of a patch keeps to the regime; it leaves lawful outcomes and lawful slots for outputs to come. -/
theorem lowers_lowerBlocks (M : R.Lawful a) (hreserve : R.Reserves) (hw : R.Inv (slots.filterMap id) w.builder) :
    let r := (a.lowerBlocks slots).run w
    R.Inv (slots.filterMap id ++ r.1.forwards.map (·.slot)) r.2.builder ∧ R.Le w.builder r.2.builder
      ∧ R.Lowers a r.1 r.2.builder ∧ R.Forwards a r.1.forwards r.2.builder := by
  obtain ⟨hgood, hle⟩ := good_lowerNodes M (fun _ _ => hreserve) (Scope.admits_whole a slots)
    (a.graph.evaluationOrder a.patch a.registry a.cycles) (good_start hw)
  exact ⟨hgood.inv, hle, hgood.lowers rfl, hgood.forwards, hgood.reserved⟩

omit L in
/-- A slot is only reserved for an output that can be forwarded, whatever the lowerings and transforms of the registry do. -/
theorem canForward_lowerBlocks (a : Analysis) (slots : BusSlots) (w : Workbench) :
    ∀ f ∈ ((a.lowerBlocks slots).run w).1.forwards, a.CanForward f :=
  (lowers_lowerBlocks (lawful_free a) (fun _ _ => builds_free trivial) trivial).2.2.2.canForward

/-! ## Buses -/

/-- Reserving the slots of buses makes them reserved slots. -/
theorem reserved_reserveBusSlots (hreserve : R.Reserves) (ts : List (Option ValueType)) {rs : List SlotId} {b : Builder}
    (hb : R.Inv rs b) :
    let r := (reserveBusSlots ts).run b
    R.Inv (rs ++ r.1.filterMap id) r.2 ∧ R.Le b r.2 := by
  induction ts generalizing rs b with
  | nil =>
    refine ⟨?_, L.refl b⟩
    show R.Inv (rs ++ []) b
    rwa [List.append_nil]
  | cons t rest ih =>
    rw [run_reserveBusSlots_cons]
    split
    · rename_i t _
      obtain ⟨hinv, hle, -⟩ := hreserve t hb
      obtain ⟨hinv', hle'⟩ := ih hinv
      exact ⟨by simpa using hinv', L.trans hle hle'⟩
    · exact ih hb

variable {rs : List SlotId} {l : Lowered}

/-- A step before the one that settles a slot. -/
theorem Settles.bind {m : Emit α} {f : α → Emit β} {slot : SlotId} {P : α → Workbench → Prop} (h : R.Emits rs m w P)
    (hf : ∀ x w', R.Inv rs w'.builder → R.Le w.builder w'.builder → P x w' → R.Settles rs slot (f x) w') :
    R.Settles rs slot (m >>= f) w := by
  obtain ⟨b, v, source, hinv, hle, hrest⟩ := hf _ _ h.1 h.2.1 h.2.2
  exact ⟨b, v, source, hinv, L.trans h.2.1 hle, hrest⟩

/-- In a regime where slots may be bound, to settle a slot that is open leaves it bound. -/
theorem Settles.emits {m : Emit α} {slot : SlotId} (h : R.Settles rs slot m w) (hbinds : R.Binds) (hslot : slot ∈ rs) :
    R.Emits rs m w fun _ w' => R.Bound slot w'.builder := by
  obtain ⟨b, v, source, hinv, hle, hraw, hsource, htyped, hrun⟩ := h
  obtain ⟨hinv', hle', hbound⟩ := hbinds.bind hinv hslot hraw hsource htyped
  rw [← hrun] at hinv' hle' hbound
  exact ⟨hinv', L.trans hle hle', hbound⟩

/-- The term of a publisher has the type of the bus. -/
theorem emits_busTerm (b : Bus) (t : ValueType) {x : Writer} (hw : R.Inv rs w.builder)
    (hx : ∀ v ∈ l.written? x, R.Raw w.builder v) :
    R.Emits rs (BusValue.term a l b t x) w fun r w' => ∀ y ∈ r.1, R.Typed t w'.builder y := by
  have hnone : ∀ {w : Workbench} {failed : Bool}, R.Inv rs w.builder →
      R.Emits rs (pure (none, failed)) w fun r w' => ∀ y ∈ r.1, R.Typed t w'.builder y :=
    fun hw => Emits.pure L hw fun y hy => absurd hy (Option.not_mem_none y)
  unfold BusValue.term
  split
  · split
    · exact hnone hw
    · rename_i v hv
      refine Emits.bind L (Emits.build (L.chain _ hw (hx v hv))) fun r w' hw' _ hr => ?_
      cases r with
      | ok y =>
        refine Emits.bind L (Emits.build (typed_coerce L.toElementary hw' (hr y rfl) t)) fun o w'' hw'' _ ho => ?_
        exact Emits.pure L hw'' ho
      | error e => exact Emits.bind L (Emits.report L _ hw') fun _ w'' hw'' _ _ => hnone hw''
  · exact hnone hw

/-- The terms of several publishers have the type of the bus. -/
theorem emits_busTerms (b : Bus) (t : ValueType) {xs : List Writer} (hw : R.Inv rs w.builder)
    (hxs : ∀ x ∈ xs, ∀ v ∈ l.written? x, R.Raw w.builder v) :
    R.Emits rs (BusValue.terms a l b t xs) w fun r w' => ∀ y ∈ r.1, R.Typed t w'.builder y := by
  induction xs generalizing w with
  | nil => exact Emits.pure L hw fun y hy => absurd hy List.not_mem_nil
  | cons x rest ih =>
    obtain ⟨hx, hrest⟩ := List.forall_mem_cons.1 hxs
    refine Emits.bind L (emits_busTerm L b t hw hx) fun r w hw hle hr => ?_
    refine Emits.bind L (ih hw fun y hy v hv => L.raw_mono hle (hrest y hy v hv)) fun r' w' hw' hle' hr' => Emits.pure L hw' ?_
    refine List.forall_mem_append.2 ⟨fun y hy => ?_, hr'⟩
    exact L.typed_mono hle' (hr y (Option.mem_toList.1 hy))

/-- The default of a bus. -/
theorem typed_default {b : Builder} (hb : R.Inv rs b) (t : ValueType) (value : Option Value) :
    R.Builds rs (BusValue.default t value) b fun o b' => ∀ v ∈ o, R.Typed t b' v := by
  refine Builds.typed ?_ (BusValue.returns_default_fits t value)
  have E := L.toElementary
  unfold BusValue.default
  split
  · exact builds_newEvent E hb (e := .never) rfl nofun ‹_›
  · split
    · exact .pure_none E hb
    · refine (E.intern _ hb).bind E fun c _ hb _ hc => ?_
      exact builds_newSignal E hb (e := .const c) rfl rfl (List.forall_mem_singleton.2 hc) ‹_›
  · split
    · exact .pure_none E hb
    · refine (E.intern _ hb).bind E fun c _ hb _ hc => ?_
      exact builds_newField E hb (e := .const c) rfl (List.forall_mem_singleton.2 hc) ‹_›
  all_goals exact .pure_none E hb

/-- The value of a bus of a type that lives in slots: there always is one. -/
theorem builds_busValue (b : Bus) {t : ValueType} (ht : t.isSlotted = true) {values : List ValueRef} {b₀ : Builder}
    (hb : R.Inv rs b₀) (hvalues : ∀ v ∈ values, R.Typed t b₀ v) :
    R.Builds rs (if values.isEmpty then BusValue.default t b.default else Build.reduce t (.multi b.combine) values) b₀
      fun o b' => ∃ v source, o = some v ∧ v.source? = some source ∧ R.Typed t b' v := by
  have hvalue : R.Builds rs (if values.isEmpty then BusValue.default t b.default else Build.reduce t (.multi b.combine) values) b₀
      fun o b' => o.isSome = true ∧ ∀ v ∈ o, R.Typed t b' v := by
    split
    · obtain ⟨hinv, hle, hq⟩ := typed_default L hb t b.default
      exact ⟨hinv, hle, BusValue.returns_default ht _ _, hq⟩
    · rename_i hne
      obtain ⟨hinv, hle, hq⟩ := typed_reduce L.toElementary hb (.inl ht) hvalues
      refine ⟨hinv, hle, Build.returns_reduce_isSome ht _ (by simpa using hne) (fun v hv => ?_) _, hq⟩
      exact (hvalues v hv).2
  obtain ⟨hinv, hle, hsome, hq⟩ := hvalue
  obtain ⟨v, hv⟩ := Option.isSome_iff_exists.1 hsome
  obtain ⟨source, hsource⟩ := (hq v hv).2.source ht
  exact ⟨hinv, hle, v, source, hv, hsource, hq v hv⟩

section Settles

variable (b : Bus) {t : ValueType} (ht : t.isSlotted = true) {slot : SlotId} (hslot : R.Strict → w.builder.slotType? slot = some t)

include ht hslot

/-- To settle a bus binds its slot, or reports that there is no value. -/
theorem settles_settle (publishers : Nat) {values : List ValueRef} (failed : Bool) (hw : R.Inv rs w.builder)
    (hvalues : ∀ v ∈ values, R.Typed t w.builder v) :
    R.Settles rs slot (BusValue.settle b t slot publishers values failed) w := by
  refine Settles.bind L (Emits.build (builds_busValue L b ht hw hvalues)) fun o w hw hle ho => ?_
  obtain ⟨v, source, rfl, hsource, htyped⟩ := ho
  dsimp only
  rw [hsource]
  refine ⟨w.builder, v, source, hw, L.refl _, htyped.1, hsource, fun hstrict => ⟨t, ?_, htyped.2⟩, rfl⟩
  exact L.slotType (L.steady hstrict) hle (hslot hstrict)

/-- To fill the slot of a bus settles it with the terms of its publishers. -/
theorem settles_fill {publishers : List Writer} (failed : Bool) (hw : R.Inv rs w.builder)
    (hpublishers : ∀ x ∈ publishers, ∀ v ∈ l.written? x, R.Raw w.builder v) :
    R.Settles rs slot (BusValue.fill a l b t slot publishers failed) w := by
  unfold BusValue.fill
  split
  · exact settles_settle L b ht hslot _ true hw fun v hv => absurd hv List.not_mem_nil
  · refine Settles.bind L (emits_busTerms L b t hw hpublishers) fun r _ hw hle hr => ?_
    exact settles_settle L b ht (fun hstrict => L.slotType (L.steady hstrict) hle (hslot hstrict)) _ r.2 hw hr

end Settles

omit L in
/-- A bus without a slot is left as it is. -/
theorem builder_lower_of_none {ix : BusIx} (b : Bus) (hs : slots[ix.index]?.join = none) :
    ((BusValue.lower a slots l ix b).run w).2.builder = w.builder := by
  unfold BusValue.lower BusValue.supply
  simp only [hs]
  split
  · rfl
  · split <;> rfl

/-- The slot of a bus is bound to a value that is made of what its publishers give. -/
theorem settles_lower (hslots : a.SlotsTyped slots) (htypes : R.Strict → a.BusesTyped slots w.builder) {ix : BusIx} (b : Bus)
    {slot : SlotId} (hs : slots[ix.index]?.join = some slot) (hw : R.Inv rs w.builder)
    (hpublishers : ∀ x ∈ a.patch.publishers b.id, ∀ v ∈ l.written? x, R.Raw w.builder v) :
    R.Settles rs slot (BusValue.lower a slots l ix b) w := by
  obtain ⟨t, htype, ht⟩ := hslots ix slot hs
  have hslot : R.Strict → w.builder.slotType? slot = some t := fun hstrict => htypes hstrict ix slot t hs htype
  unfold BusValue.lower BusValue.supply
  simp only [htype, hs]
  split
  · exact settles_fill L b ht hslot false hw hpublishers
  · refine Settles.bind L (Emits.report L _ hw) fun _ w hw hle _ => ?_
    exact settles_fill L b ht (fun hstrict => L.slotType (L.steady hstrict) hle (hslot hstrict)) true hw
      fun x hx v hv => L.raw_mono hle (hpublishers x hx v hv)

/-- The slots of buses keep their types when more is built. -/
theorem busesTyped_mono {b b' : Builder} (h : R.Le b b') (hb : R.Strict → a.BusesTyped slots b) :
    R.Strict → a.BusesTyped slots b' :=
  fun hstrict ix s t hs ht => L.slotType (L.steady hstrict) h (hb hstrict ix s t hs ht)

variable {more : List SlotId}

/-- To lower a bus leaves its slot bound. -/
theorem emits_lowerBus (hbinds : R.Binds) (hslots : a.SlotsTyped slots) (htypes : R.Strict → a.BusesTyped slots w.builder) (ix : BusIx)
    (b : Bus) (hw : R.Inv (slots.filterMap id ++ more) w.builder) (hl : R.Lowers a l w.builder) :
    R.Emits (slots.filterMap id ++ more) (BusValue.lower a slots l ix b) w fun _ w' =>
      ∀ s, slots[ix.index]?.join = some s → R.Bound s w'.builder := by
  cases hs : slots[ix.index]?.join with
  | none =>
    refine ⟨?_, ?_, fun s h => nomatch h⟩
    · rw [builder_lower_of_none b hs]
      exact hw
    · rw [builder_lower_of_none b hs]
      exact L.refl _
  | some slot =>
    have hsettles := settles_lower L hslots htypes b hs hw fun x _ v hv => hl.written hv
    obtain ⟨hinv, hle, hq⟩ := hsettles.emits L hbinds (List.mem_append_left _ (Scope.mem_base_of_bus hs))
    refine ⟨hinv, hle, fun s h => ?_⟩
    obtain rfl := Option.some.inj h
    exact hq

/-- To lower buses leaves all their slots bound. -/
theorem emits_lowerAll (hbinds : R.Binds) (hslots : a.SlotsTyped slots) (htypes : R.Strict → a.BusesTyped slots w.builder)
    (buses : List (BusIx × Bus)) (hw : R.Inv (slots.filterMap id ++ more) w.builder) (hl : R.Lowers a l w.builder) :
    R.Emits (slots.filterMap id ++ more) (BusValue.lowerAll a slots l buses) w fun _ w' =>
      ∀ x ∈ buses, ∀ s, slots[x.1.index]?.join = some s → R.Bound s w'.builder := by
  induction buses generalizing w with
  | nil => exact Emits.pure L hw fun x hx => absurd hx List.not_mem_nil
  | cons x rest ih =>
    refine Emits.bind L (emits_lowerBus L hbinds hslots htypes x.1 x.2 hw hl) fun o w hw hle hfirst => ?_
    refine Emits.bind L (ih (busesTyped_mono L hle htypes) hw (hl.mono L hle)) fun os w' hw' hle' hrest => Emits.pure L hw' ?_
    exact List.forall_mem_cons.2 ⟨fun s hs => hbinds.mono hle' (hfirst s hs), hrest⟩

/-! ## Linking -/

/-- Each slot that was reserved for an output is bound, or it is reported that it is not. -/
theorem emits_bindForwards (hbinds : R.Binds) {fs : List ForwardSlot} (hfs : ∀ f ∈ fs, f.slot ∈ rs)
    (hforwards : R.Forwards a fs w.builder) (hw : R.Inv rs w.builder) (hl : R.Lowers a l w.builder) :
    R.Emits rs (Linking.bindForwards a l fs) w fun _ w' => ∀ f ∈ fs,
      R.Bound f.slot w'.builder ∨ Linking.unboundForward (a.patch.blockId f.block) f.port ∈ w'.diagnostics := by
  induction fs generalizing w with
  | nil => exact Emits.pure L hw fun f hf => absurd hf List.not_mem_nil
  | cons f rest ih =>
    obtain ⟨hf, hrest⟩ := List.forall_mem_cons.1 hfs
    have hothers : ∀ {w' : Workbench}, R.Le w.builder w'.builder → R.Forwards a rest w'.builder := fun hle =>
      (Forwards.mono L hle hforwards).tail
    unfold Linking.bindForwards
    dsimp only
    split
    · rename_i source hsource
      obtain ⟨v, hv, hsource⟩ := Option.bind_eq_some_iff.1 hsource
      have htyped : R.Strict → ∃ t, w.builder.slotType? f.slot = some t ∧ t.Fits v := by
        intro hstrict
        obtain ⟨t, ht, hslot⟩ := hforwards.reserved (L.steady hstrict) f (List.mem_cons_self ..)
        obtain ⟨-, u, hu, hslotted⟩ := hforwards.canForward f (List.mem_cons_self ..)
        obtain rfl := Option.some.inj (ht.symm.trans hu)
        obtain ⟨s, hs⟩ := ValueRef.exists_slot hsource
        exact ⟨t, hslot, hl.fits hstrict hv hs ht hslotted⟩
      refine Emits.bind L (Emits.build (hbinds.bind hw hf (hl.output hv) hsource htyped)) fun _ w hw hle hbound => ?_
      obtain ⟨hinv, hle', hq⟩ := ih hrest (hothers hle) hw (hl.mono L hle)
      exact ⟨hinv, hle', List.forall_mem_cons.2 ⟨.inl (hbinds.mono hle' hbound), hq⟩⟩
    · refine Emits.bind L (P := fun _ w' => Linking.unboundForward (a.patch.blockId f.block) f.port ∈ w'.diagnostics)
        ⟨hw, L.refl _, List.mem_append_right _ (List.mem_singleton.2 rfl)⟩ fun _ w hw hle hsaid => ?_
      obtain ⟨hinv, hle', hq⟩ := ih hrest (hothers hle) hw (hl.mono L hle)
      have hsilent : (Linking.bindForwards a l rest).Says fun _ => True := Linking.says_bindForwards fun _ _ => trivial
      exact ⟨hinv, hle', List.forall_mem_cons.2 ⟨.inr (hsilent.mem hsaid), hq⟩⟩

/-- The value of a writer is usable when the program is linked. -/
theorem emits_source {x : Writer} (hx : x.Grounded a.patch) (t : ValueType) (hw : R.Inv (slots.filterMap id ++ more) w.builder)
    (hl : R.Lowers a l w.builder) :
    R.Emits (slots.filterMap id ++ more) (Linking.source slots l t x) w fun o w' => ∀ y ∈ o, R.Raw w'.builder y := by
  cases x with
  | wire edge edgeId b port => exact Emits.pure L hw fun y hy => hl.output hy
  | bus edge edgeId b => exact Emits.build (builds_readBus L (fun s hs => List.mem_append_left _ (Scope.mem_base_of_bus hs)) hw)
  | fallback id c =>
    obtain ⟨d, hd, rfl⟩ := hx
    refine Emits.pure L hw fun y hy => ?_
    obtain rfl := Option.some.inj hy
    exact L.fallback hw hd

/-- The first term that can be made has the type of the input. -/
theorem emits_firstTerm {xs : List Writer} (hxs : ∀ x ∈ xs, x.Grounded a.patch) (t : ValueType)
    (hw : R.Inv (slots.filterMap id ++ more) w.builder) (hl : R.Lowers a l w.builder) :
    R.Emits (slots.filterMap id ++ more) (Linking.firstTerm a slots l t xs) w fun o w' => ∀ y ∈ o, R.Typed t w'.builder y := by
  induction xs generalizing w with
  | nil => exact Emits.pure L hw fun y hy => absurd hy (Option.not_mem_none y)
  | cons x rest ih =>
    obtain ⟨hx, hrest⟩ := List.forall_mem_cons.1 hxs
    refine Emits.bind L (emits_source L hx t hw hl) fun o w hw hle ho => ?_
    have hl := hl.mono L hle
    cases o with
    | none => exact ih hrest hw hl
    | some v =>
      refine Emits.bind L (emits_finishTerm L (a.edge? x) t hw (ho v rfl)) fun o w hw hle ho => ?_
      cases o with
      | none => exact ih hrest hw (hl.mono L hle)
      | some y => exact Emits.pure L hw ho

/-- An input of a block without a lowering is resolved to a value of its type. -/
theorem emits_resolveInput (ix : BlockIx) (input : InputDecl) (hw : R.Inv (slots.filterMap id ++ more) w.builder)
    (hl : R.Lowers a l w.builder) :
    R.Emits (slots.filterMap id ++ more) (Linking.resolveInput a slots l ix input) w fun o w' =>
      ∀ y ∈ o, ∃ t, a.types.inputType? ix input.id = some t ∧ R.Typed t w'.builder y := by
  unfold Linking.resolveInput
  split
  · exact Emits.pure L hw fun y hy => absurd hy (Option.not_mem_none y)
  · rename_i t ht
    dsimp only
    split
    · exact Emits.bind L (Emits.report L _ hw) fun _ w hw _ _ => Emits.pure L hw fun y hy => absurd hy (Option.not_mem_none y)
    · obtain ⟨hinv, hle, hq⟩ := emits_firstTerm L (fun x hx => Normalized.grounded_of_mem_writers hx) t hw hl
      exact ⟨hinv, hle, fun y hy => ⟨t, ht, hq y hy⟩⟩

/-- The inputs of such a block are resolved to values of their types. -/
theorem emits_resolveInputs (ix : BlockIx) (inputs : List InputDecl) {done : Dict ValueRef}
    (hw : R.Inv (slots.filterMap id ++ more) w.builder) (hl : R.Lowers a l w.builder) (hdone : R.Inputs a ix done w.builder) :
    R.Emits (slots.filterMap id ++ more) (Linking.resolveInputs a slots l ix inputs done) w fun d w' =>
      R.Inputs a ix d w'.builder := by
  induction inputs generalizing w done with
  | nil => exact Emits.pure L hw hdone
  | cons input rest ih =>
    refine Emits.bind L (emits_resolveInput L ix input hw hl) fun o w hw hle ho => ?_
    have hl := hl.mono L hle
    have hdone := Inputs.mono L hle hdone
    cases o with
    | none => exact ih hw hl hdone
    | some y =>
      obtain ⟨t, ht, hy⟩ := ho y rfl
      exact ih hw hl (hdone.insert ht hy)

/-- The inputs of a block are linked to values of their types, whether the block was lowered or not. -/
theorem emits_blockInputs (ix : BlockIx) (hw : R.Inv (slots.filterMap id ++ more) w.builder) (hl : R.Lowers a l w.builder) :
    R.Emits (slots.filterMap id ++ more) (Linking.blockInputs a slots l ix) w fun d w' => R.Inputs a ix d w'.builder := by
  unfold Linking.blockInputs
  split
  · exact Emits.pure L hw (hl ix).inputs
  · split
    · exact Emits.pure L hw (Inputs.empty ix _)
    · exact emits_resolveInputs L ix _ hw hl (Inputs.empty ix _)

/-- All inputs of all blocks, those of lowered blocks and those that are resolved last. -/
theorem emits_allInputs (ixs : List BlockIx) (hw : R.Inv (slots.filterMap id ++ more) w.builder) (hl : R.Lowers a l w.builder) :
    R.Emits (slots.filterMap id ++ more) (Linking.allInputs a slots l ixs) w fun ds w' =>
      ∀ x ∈ ixs.zip ds, R.Inputs a x.1 x.2 w'.builder := by
  induction ixs generalizing w with
  | nil => exact Emits.pure L hw fun x hx => absurd hx List.not_mem_nil
  | cons ix rest ih =>
    refine Emits.bind L (emits_blockInputs L ix hw hl) fun d w hw hle hd => ?_
    refine Emits.bind L (ih hw (hl.mono L hle)) fun ds w' hw' hle' hds => Emits.pure L hw' ?_
    exact List.forall_mem_cons.2 ⟨Inputs.mono L hle' hd, hds⟩

/-- To write the schedule keeps to the regime. -/
theorem builds_pushSteps (hschedules : R.Schedules) (steps : List ScheduleStep) {b : Builder} (hb : R.Inv rs b) :
    R.Builds rs (Linking.pushSteps steps) b fun _ _ => True := by
  induction steps generalizing b with
  | nil => exact Builds.pure L.toElementary hb trivial
  | cons s rest ih => exact (hschedules s hb).bind L.toElementary fun _ _ hb _ _ => ih hb

omit L in
/-- Every bound input has its type. -/
theorem typed_inputTable {ds : List (Dict ValueRef)} {b : Builder}
    (h : ∀ x ∈ (a.patch.placedBlocks.map (·.1)).zip ds, R.Inputs a x.1 x.2 b) {p : PortBinding} (hp : p ∈ Linking.inputTable a ds) :
    p.block.index < a.patch.blocks.length ∧ ∃ t, p.type = some t ∧ R.Typed t b p.value := by
  obtain ⟨⟨⟨ix, x⟩, d⟩, hx, hp⟩ := List.mem_flatMap.1 hp
  dsimp only at hp
  split at hp
  · exact absurd hp List.not_mem_nil
  · obtain ⟨⟨port, i⟩, -, hp⟩ := List.mem_filterMap.1 hp
    obtain ⟨v, hv, rfl⟩ := Option.map_eq_some_iff.1 hp
    have hd : R.Inputs a ix d b := h (ix, d) (by
      rw [List.zip_map_left]
      exact List.mem_map_of_mem hx)
    exact ⟨Normalized.lt_of_mem_placedBlocks (List.of_mem_zip hx).1, hd _ (Dict.mem_entries_of_get? hv)⟩

omit L in
/-- The table of outputs holds usable values of blocks of the patch. -/
theorem raw_outputTable {b : Builder} (hl : R.Lowers a l b) {p : PortBinding} (hp : p ∈ Linking.outputTable a l) :
    p.block.index < a.patch.blocks.length ∧ R.Raw b p.value := by
  obtain ⟨⟨ix, x⟩, hx, hp⟩ := List.mem_flatMap.1 hp
  dsimp only at hp
  split at hp
  · rename_i decl values _ hvalues
    obtain ⟨⟨port, i⟩, -, hp⟩ := List.mem_filterMap.1 hp
    obtain ⟨v, hv, rfl⟩ := Option.map_eq_some_iff.1 hp
    exact ⟨Normalized.lt_of_mem_placedBlocks hx, (hl ix).raw hvalues v (Dict.mem_values_of_get? hv)⟩
  · exact absurd hp List.not_mem_nil

/-- The last steps before the schedule is laid down: all inputs have their values, and each slot that was reserved for an output is
bound or reported. -/
theorem emits_linkInputs (hbinds : R.Binds) (hw : R.Inv (slots.filterMap id ++ l.forwards.map (·.slot)) w.builder)
    (hl : R.Lowers a l w.builder) (hforwards : R.Forwards a l.forwards w.builder) :
    R.Emits (slots.filterMap id ++ l.forwards.map (·.slot)) (a.linkInputs slots l) w fun ds w' =>
      (∀ x ∈ (a.patch.placedBlocks.map (·.1)).zip ds, R.Inputs a x.1 x.2 w'.builder) ∧ ∀ f ∈ l.forwards,
        R.Bound f.slot w'.builder ∨ Linking.unboundForward (a.patch.blockId f.block) f.port ∈ w'.diagnostics := by
  have hslots : ∀ f ∈ l.forwards, f.slot ∈ slots.filterMap id ++ l.forwards.map (·.slot) :=
    fun f hf => List.mem_append_right _ (List.mem_map_of_mem hf)
  refine Emits.bind L (emits_bindForwards L hbinds hslots hforwards hw hl) fun _ w₁ hw₁ hle₁ hbound => ?_
  obtain ⟨hinv₂, hle₂, hinputs⟩ := emits_allInputs L (a.patch.placedBlocks.map (·.1)) hw₁ (hl.mono L hle₁)
  refine ⟨hinv₂, hle₂, hinputs, fun f hf => ?_⟩
  exact (hbound f hf).imp (hbinds.mono hle₂) fun hsaid => (Linking.says_allInputs slots _).mem hsaid

/-! ## The whole emission -/

end Regime

/-- The steps of the schedule: those of the nodes that have a value, in the order of evaluation. -/
def Emission.steps (e : Emission) (a : Analysis) : List ScheduleStep := e.lowered.order.filterMap (Linking.step? a e.lowered e.buses)

/-- The nodes of a patch in the order in which they are taken. -/
def Analysis.order (a : Analysis) : List Nat := a.graph.evaluationOrder a.patch a.registry a.cycles

/-- Blocks are lowered in the order of the analysis. -/
theorem Analysis.order_emission (a : Analysis) (consts : Pool) (options : Options) :
    (a.emission consts options).lowered.order = a.order :=
  rfl

/-- The program of an emission is what the last stage finishes. -/
theorem Analysis.program_emission (a : Analysis) (consts : Pool) (options : Options) :
    (a.emission consts options).linked.program = (a.emission consts options).afterLink.builder.finish :=
  rfl

theorem Linking.run_pushSteps (steps : List ScheduleStep) (b : Builder) :
    ((Linking.pushSteps steps).run b).2 = { b with schedule := b.schedule ++ steps.toArray } := by
  induction steps generalizing b with
  | nil =>
    show b = _
    simp
  | cons s rest ih =>
    refine (ih _).trans ?_
    simp

namespace Regime

variable {R : Regime} {a : Analysis} (L : R.Lawful a)

/-- What holds of an emission before its schedule is laid down: the slots of all buses are bound, and each slot that was reserved for an
output is bound or reported. -/
structure Prepared (R : Regime) (a : Analysis) (e : Emission) (b : Builder) : Prop where
  inv : R.Inv (e.slots.filterMap id ++ e.lowered.forwards.map (·.slot)) b
  inputs : ∀ p ∈ e.linked.inputs, p.block.index < a.patch.blocks.length ∧ ∃ t, p.type = some t ∧ R.Typed t b p.value
  outputs : ∀ p ∈ e.linked.outputs, p.block.index < a.patch.blocks.length ∧ R.Raw b p.value
  buses : ∀ s ∈ e.slots.filterMap id, R.Bound s b
  forwards : ∀ f ∈ e.lowered.forwards, a.CanForward f ∧
    (R.Bound f.slot b ∨ Linking.unboundForward (a.patch.blockId f.block) f.port ∈ e.afterLink.diagnostics)
  builder : e.afterLink.builder = ((Linking.pushSteps (e.steps a)).run b).2

/-- What holds of an emission. -/
structure Holds (R : Regime) (a : Analysis) (e : Emission) : Prop where
  inv : R.Inv (e.slots.filterMap id ++ e.lowered.forwards.map (·.slot)) e.afterLink.builder
  links : R.Links a e.linked e.afterLink.builder
  buses : ∀ s ∈ e.slots.filterMap id, R.Bound s e.afterLink.builder
  forwards : ∀ f ∈ e.lowered.forwards, a.CanForward f ∧
    (R.Bound f.slot e.afterLink.builder
      ∨ Linking.unboundForward (a.patch.blockId f.block) f.port ∈ e.afterLink.diagnostics)

/-- After the blocks, an emission keeps to a regime up to its schedule if the steps that bring values to inputs do. -/
theorem prepared_of_lowers (T : R.Routed a) (hbinds : R.Binds) (consts : Pool) (options : Options)
    (hbuses : a.types.buses.length = a.patch.buses.length) {e : Emission} (he : e = a.emission consts options)
    (hinv : R.Inv (e.slots.filterMap id ++ e.lowered.forwards.map (·.slot)) e.afterBlocks.builder)
    (hl : R.Lowers a e.lowered e.afterBlocks.builder) (hfs : R.Forwards a e.lowered.forwards e.afterBlocks.builder)
    (htypes : R.Strict → a.BusesTyped e.slots e.afterBlocks.builder) :
    ∃ b, R.Prepared a e b ∧ R.Le e.afterBlocks.builder b := by
  subst he
  have hslots : a.SlotsTyped (a.emission consts options).slots := (a.typed_busSlots { consts, timeModel := some a.time.model }).1
  obtain ⟨hinv₂, hle₂, hbound⟩ := emits_lowerAll T (w := { builder := _ }) hbinds hslots htypes a.patch.placedBuses hinv hl
  have hl := hl.mono T hle₂
  obtain ⟨hinv₃, hle₃, hinputs, hforwards⟩ := emits_linkInputs T (w := { builder := _ }) hbinds hinv₂ hl (hfs.mono T hle₂)
  refine ⟨_, ⟨hinv₃, fun p hp => typed_inputTable hinputs hp, fun p hp => raw_outputTable (hl.mono T hle₃) hp, fun s hs => ?_,
    fun f hf => ⟨hfs.canForward f hf, (hforwards f hf).imp_right fun hsaid => ?_⟩, rfl⟩, T.trans hle₂ hle₃⟩
  · -- the bus of the slot is one of those that were lowered
    obtain ⟨o, ho, hs⟩ := List.mem_filterMap.1 hs
    obtain ⟨i, hi⟩ := List.getElem?_of_mem ho
    have hjoin := (congrArg Option.join hi).trans hs
    obtain ⟨bus, hmem⟩ := hslots.mem_placedBuses hbuses ⟨i⟩ hjoin
    exact hbinds.mono hle₃ (hbound _ hmem s hjoin)
  · exact List.mem_append_left _ (List.mem_append_left _ hsaid)

include L

/-- An emission whose steps keep to a regime keeps to it up to its schedule. -/
theorem prepared_emission (hreserve : R.Reserves) (hbinds : R.Binds) (consts : Pool) (options : Options)
    (hbuses : a.types.buses.length = a.patch.buses.length) (hstart : R.Inv [] { consts, timeModel := some a.time.model }) :
    ∃ b, R.Prepared a (a.emission consts options) b := by
  obtain ⟨hinv₀, -⟩ := reserved_reserveBusSlots L.toRouted hreserve a.types.buses hstart
  rw [List.nil_append] at hinv₀
  obtain ⟨hinv₁, hle₁, hl, hfs⟩ := lowers_lowerBlocks L (w := { builder := _ }) hreserve hinv₀
  have htypes := (a.typed_busSlots { consts, timeModel := some a.time.model }).2
  obtain ⟨b, hb, -⟩ := prepared_of_lowers L.toRouted hbinds consts options hbuses rfl hinv₁ hl hfs
    (busesTyped_mono L.toRouted hle₁ fun _ => htypes)
  exact ⟨b, hb⟩

/-- An emission whose steps keep to a regime keeps to it as a whole. -/
theorem holds_emission (hreserve : R.Reserves) (hbinds : R.Binds) (hschedules : R.Schedules) {consts : Pool} (options : Options)
    (hbuses : a.types.buses.length = a.patch.buses.length) (hstart : R.Inv [] { consts, timeModel := some a.time.model }) :
    R.Holds a (a.emission consts options) := by
  obtain ⟨b, hprepared⟩ := prepared_emission L hreserve hbinds consts options hbuses hstart
  obtain ⟨hinv, hle, -⟩ := builds_pushSteps L.toRouted hschedules ((a.emission consts options).steps a) hprepared.inv
  rw [← hprepared.builder] at hinv hle
  refine ⟨hinv, ⟨a.program_emission consts options, rfl, fun p hp => ?_, fun p hp => ?_⟩,
    fun s hs => hbinds.mono hle (hprepared.buses s hs), fun f hf => ?_⟩
  · obtain ⟨hlt, t, ht, htyped⟩ := hprepared.inputs p hp
    exact ⟨hlt, t, ht, L.typed_mono hle htyped⟩
  · obtain ⟨hlt, hraw⟩ := hprepared.outputs p hp
    exact ⟨hlt, L.raw_mono hle hraw⟩
  · obtain ⟨hcan, hbound⟩ := hprepared.forwards f hf
    exact ⟨hcan, hbound.imp_left (hbinds.mono hle)⟩

end Regime

end PatchGraph
