import PatchGraph.Proofs.Compile.Delivery
import PatchGraph.Proofs.Compile.ScheduleSteps

/-!
# What a clean emission delivers

When the blocks of a patch are lowered without an error, all their outputs that live in slots have one, or linking would say so. So
buses count every publisher that delivers a value, and the inputs in the linked program are those that the blocks were lowered with.
-/

namespace PatchGraph

/-! ## Buses -/

/-- The outputs of lowered blocks that live in slots have one. -/
def Analysis.AllRegistered (a : Analysis) (l : Lowered) : Prop :=
  ∀ ix port t, a.types.outputType? ix port = some t → t.isSlotted = true →
    ∃ d v s, (l.outcome ix).outputs? = some d ∧ d.get? port = some v ∧ v.slot? = some s

namespace BusValue

/-- A bus counts the values that its publishers gave. -/
theorem effective_settle (b : Bus) (t : ValueType) (slot : SlotId) (publishers : Nat) (values : List ValueRef) (failed : Bool)
    (w : Workbench) : ((settle b t slot publishers values failed).run w).1.effective = values.length := by
  unfold settle
  rw [StateT.run_bind]
  generalize (Emit.build _).run w = q
  obtain ⟨o, w⟩ := q
  cases o with
  | none => rfl
  | some v =>
    simp only [bind]
    split <;> rfl

variable {a : Analysis} {slots : BusSlots} {l : Lowered} {b : Bus} {t : ValueType} {w : Workbench} {rs : List SlotId}

/-- The steps of the edge of a publisher are taken first, then the value is taken to the type of the bus. -/
theorem run_term {x : Writer} {e : Edge} {ix : BlockIx} {port : String} {v : ValueRef} (he : a.edge? x = some e)
    (hx : ∃ i id, x = .wire i id ix port) (hv : l.output? ix port = some v) (w : Workbench) :
    let q := (a.registry.applyChain e v).run.run w.builder
    (term a l b t x).run w = (match q.1 with
      | .ok y => do return (← Emit.build (Build.coerce y t), false)
      | .error err => do
        Emit.report (publisherFailed b e err)
        return (none, true) : Emit (Option ValueRef × Bool)).run { w with builder := q.2 } := by
  obtain ⟨i, id, rfl⟩ := hx
  unfold term
  rw [he]
  dsimp only
  rw [hv]
  rfl

variable (ha : a.Faithful) (ht : t.isSlotted = true) (hl : a.AllRegistered l)

include ha ht hl

/-- A publisher gives a value exactly if it delivers one. -/
theorem isSome_term {x : Writer} {ix : BlockIx} {port : String} (hwire : ∃ i id, x = .wire i id ix port) (hx : a.Connects t x)
    (hw : Regime.sorted.Inv rs w.builder) (hlowers : Regime.sorted.Lowers a l w.builder) (hclean : (term a l b t x).Clean w) :
    ((term a l b t x).run w).1.1.isSome = x.delivers a.types t := by
  have hwire' := hwire
  obtain ⟨i, id, rfl⟩ := hwire'
  obtain ⟨e, u, he, hu, hconversion⟩ := hx rfl
  have hdelivers : Writer.delivers a.types t (.wire i id ix port) = u.isSlotted := (congrArg (Option.any _) hu).trans rfl
  have hsourced : Sourced u (l.output? ix port) w.builder :=
    .output (hlowers ix) hu (ha.noConst ix port u hu) fun hslotted => hl ix port u hu hslotted
  rw [hdelivers]
  cases hv : l.output? ix port with
  | none =>
    rw [hv] at hsourced
    rw [hsourced.isSlotted_of_none]
    unfold term
    rw [he]
    dsimp only
    rw [hv]
    rfl
  | some v =>
    rw [hv] at hsourced
    rw [Emit.Clean, run_term he hwire hv] at hclean
    rw [run_term he hwire hv]
    revert hclean
    split
    · rename_i y hy
      exact fun _ => ha.candid.isSome_coerce ht hconversion hw hsourced hy _
    · intro hclean
      exact absurd (Emit.Clean.bind (m := Emit.report _) hclean fun _ => .pure (P := fun _ => True) (none, true)).1
        (Emit.not_clean_report rfl)

variable (hb : b ∈ a.patch.buses)

include hb

/-- There are as many values as publishers that deliver one. -/
theorem length_terms {xs : List Writer} (hwires : ∀ x ∈ xs, ∃ ix port i id, x = .wire i id ix port) (hxs : ∀ x ∈ xs, a.Connects t x)
    (hw : Regime.sorted.Inv rs w.builder) (hlowers : Regime.sorted.Lowers a l w.builder) (hclean : (terms a l b t xs).Clean w) :
    ((terms a l b t xs).run w).1.1.length = xs.countP (·.delivers a.types t) := by
  induction xs generalizing w with
  | nil => rfl
  | cons x rest ih =>
    obtain ⟨hx, hrest⟩ := List.forall_mem_cons.1 hxs
    obtain ⟨⟨ix, port, hwire⟩, hwires⟩ := List.forall_mem_cons.1 hwires
    obtain ⟨hfirst, hmore⟩ := hclean.bind (P := Finding a) fun _ => (says_terms (.publisherFailed · · hb) t rest).bind fun _ => .pure _
    obtain ⟨hmore, -⟩ := Emit.Clean.bind (P := Finding a) hmore fun _ => .pure _
    obtain ⟨hinv, hle, -⟩ := Regime.emits_busTerm ha.routed b t hw fun v hv => hlowers.written (x := x) hv
    have hlength := ih hwires hrest hinv (hlowers.mono ha.routed hle) hmore
    have hsome := isSome_term ha ht hl hwire hx hw hlowers hfirst
    show (((term a l b t x).run w).1.1.toList ++ ((terms a l b t rest).run ((term a l b t x).run w).2).1.1).length = _
    rw [List.length_append, hlength, List.countP_cons, ← hsome, Nat.add_comm]
    cases ((term a l b t x).run w).1.1 <;> rfl

end BusValue

/-- Publishers are wires. -/
theorem Normalized.wire_of_mem_publishers {n : Normalized} {id : String} {x : Writer} (hx : x ∈ n.publishers id) :
    ∃ ix port i edgeId, x = .wire i edgeId ix port := by
  obtain ⟨i, e, block, port, -, hsource, -, hwriter⟩ := mem_publishers.1 hx
  rw [writerOf?, hsource] at hwriter
  obtain ⟨b, -, rfl⟩ := Option.map_eq_some_iff.1 hwriter
  exact ⟨b, port, i, e.id, rfl⟩

/-- A publisher delivers a value exactly if it starts from something that lives in a slot. -/
theorem Normalized.delivers_of_mem_publishers {n : Normalized} {id : String} {x : Writer} (hx : x ∈ n.publishers id) (types : TypeTable)
    (t : ValueType) : x.delivers types t = (types.writerType? x).any ValueType.isSlotted := by
  obtain ⟨ix, port, i, edgeId, rfl⟩ := wire_of_mem_publishers hx
  rfl

namespace BusValue

variable {a : Analysis} {slots : BusSlots} {l : Lowered} {w : Workbench} {more : List SlotId} (ha : a.Faithful) (hl : a.AllRegistered l)

include ha hl

/-- A bus with a slot counts the publishers that deliver a value. -/
theorem effective_lower {ix : BusIx} {b : Bus} {t : ValueType} {slot : SlotId} (hb : a.patch.bus? ix = some b)
    (hs : slots[ix.index]?.join = some slot) (hslots : a.SlotsTyped slots) (htype : a.types.busType? ix = some t)
    (hw : Regime.sorted.Inv (slots.filterMap id ++ more) w.builder) (hlowers : Regime.sorted.Lowers a l w.builder)
    (hclean : (lower a slots l ix b).Clean w) :
    ((lower a slots l ix b).run w).1.effective = (a.patch.publishers b.id).countP (·.delivers a.types t) := by
  have hmem : b ∈ a.patch.buses := List.mem_of_getElem? hb
  obtain ⟨u, hu, ht⟩ := hslots ix slot hs
  obtain rfl := Option.some.inj (htype.symm.trans hu)
  have hsupply : ∀ failed, supply a slots l ix b t failed = fill a l b t slot (a.patch.publishers b.id) failed := fun failed => by
    rw [supply, hs]
  revert hclean
  unfold lower
  rw [htype]
  dsimp only
  split
  · rw [hsupply]
    intro hclean
    obtain ⟨hterms, -⟩ := Emit.Clean.bind (P := Finding a) (m := terms a l b t (a.patch.publishers b.id)) hclean
      fun _ => says_settle (.noValue t hmem) slot _ _ _
    rw [← length_terms ha ht hl hmem (fun x hx => Normalized.wire_of_mem_publishers hx) (ha.publishes ix b t hb htype) hw hlowers hterms]
    exact effective_settle b t slot _ _ _ _
  · rename_i d hd
    intro hclean
    refine absurd (Emit.Clean.bind (P := Finding a) (m := Emit.report d) hclean fun _ => ?_).1
      (Emit.not_clean_report (complaint_of_policyProblem hd).isError)
    rw [hsupply]
    exact says_fill (.publisherFailed · · hmem) (.noValue t hmem) slot _ _

/-- All buses with a slot count the publishers that deliver a value. -/
theorem effective_lowerAll (hslots : a.SlotsTyped slots) (htypes : a.BusesTyped slots w.builder) {buses : List (BusIx × Bus)}
    (hbuses : ∀ x ∈ buses, a.patch.bus? x.1 = some x.2) (hw : Regime.sorted.Inv (slots.filterMap id ++ more) w.builder)
    (hlowers : Regime.sorted.Lowers a l w.builder) (hclean : (lowerAll a slots l buses).Clean w) :
    ∀ x ∈ buses.zip ((lowerAll a slots l buses).run w).1, ∀ slot t, slots[x.1.1.index]?.join = some slot →
      a.types.busType? x.1.1 = some t → x.2.effective = (a.patch.publishers x.1.2.id).countP (·.delivers a.types t) := by
  induction buses generalizing w with
  | nil => exact fun x hx => absurd hx List.not_mem_nil
  | cons bus rest ih =>
    obtain ⟨hbus, hrest⟩ := List.forall_mem_cons.1 hbuses
    have hmem : ∀ x ∈ rest, x.2 ∈ a.patch.buses := fun x hx => List.mem_of_getElem? (hrest x hx)
    obtain ⟨hfirst, hmore⟩ := hclean.bind (P := Finding a) fun _ => (says_lowerAll slots hmem).bind fun _ => .pure _
    obtain ⟨hmore, -⟩ := Emit.Clean.bind (P := Finding a) hmore fun _ => .pure _
    obtain ⟨hinv, hle, -⟩ := Regime.emits_lowerBus ha.routed Regime.binds_sorted hslots (fun _ => htypes) bus.1 bus.2 hw hlowers
    have hothers := ih (fun ix s t hs ht => hle.slotType? (htypes ix s t hs ht)) hrest hinv (hlowers.mono ha.routed hle) hmore
    refine List.forall_mem_cons.2 ⟨fun slot t hs ht => ?_, hothers⟩
    exact effective_lower ha hl hbus hs hslots ht hw hlowers hfirst

end BusValue

/-! ## Linking -/

theorem Analysis.Faithful.lt_of_ports? {a : Analysis} (ha : a.Faithful) {ix : BlockIx} {ports : PortTypes}
    (h : a.types.ports? ix = some ports) : ix.index < a.patch.blocks.length := by
  obtain ⟨d, hd, -⟩ := Option.map_eq_some_iff.1 ((ha.ports ix).symm.trans h)
  obtain ⟨b, hb, -⟩ := Option.bind_eq_some_iff.1 hd
  exact (List.getElem?_eq_some_iff.1 hb).1

namespace Linking

variable {a : Analysis} {l : Lowered}

/-- Outputs that nothing is wrong with are registered. -/
theorem allRegistered {b : Builder} (ha : a.Faithful) (hsilent : allOutputDiagnostics a l b = [])
    (hlowered : ∀ ix port t, a.types.outputType? ix port = some t → ∃ d, (l.outcome ix).outputs? = some d) : a.AllRegistered l := by
  intro ix port t hport ht
  obtain ⟨d, hd⟩ := hlowered ix port t hport
  obtain ⟨ports, hports, htype⟩ := Option.bind_eq_some_iff.1 hport
  obtain ⟨decl, hdecl, -⟩ := Option.map_eq_some_iff.1 ((ha.ports ix).symm.trans hports)
  obtain ⟨block, hblock, -⟩ := Option.bind_eq_some_iff.1 hdecl
  have hnone := List.flatMap_eq_nil_iff.1 hsilent (ix, block) (Normalized.mem_placedBlocks.2 hblock)
  simp only [hd, hports] at hnone
  have hregistered := List.filterMap_eq_nil_iff.1 hnone (port, some t) (mem_of_portType? htype)
  simp only [ht, Bool.true_and, ite_eq_right_iff, reduceCtorEq, imp_false, Bool.not_eq_true, Bool.not_eq_false'] at hregistered
  obtain ⟨s, hs, -⟩ := (Option.any_eq_true _ _).1 hregistered
  obtain ⟨v, hv, hs⟩ := Option.bind_eq_some_iff.1 hs
  exact ⟨d, v, s, hd, hv, hs⟩

theorem isError_outputDiagnostics {b : Builder} {d : Diagnostic} (h : d ∈ allOutputDiagnostics a l b) : d.isError = true := by
  obtain ⟨ix, block, ports, port, t, -, -, -, rfl⟩ := exists_unregistered h
  rfl

/-- The inputs of a block with a lowering are those that it was lowered with. -/
theorem allInputs_attempted (a : Analysis) (slots : BusSlots) (l : Lowered) (ixs : List BlockIx) (w : Workbench) :
    ((allInputs a slots l ixs).run w).1.length = ixs.length
      ∧ ∀ x ∈ ixs.zip ((allInputs a slots l ixs).run w).1, (l.outcome x.1).attempted = true → x.2 = (l.outcome x.1).inputs := by
  induction ixs generalizing w with
  | nil => exact ⟨rfl, fun x hx => absurd hx List.not_mem_nil⟩
  | cons ix rest ih =>
    obtain ⟨hlength, hrest⟩ := ih ((blockInputs a slots l ix).run w).2
    refine ⟨congrArg (· + 1) hlength, List.forall_mem_cons.2 ⟨fun hattempted => ?_, hrest⟩⟩
    show ((blockInputs a slots l ix).run w).1 = _
    rw [blockInputs, if_pos hattempted]
    rfl

/-- What is in the table of inputs is a value that was resolved. -/
theorem exists_of_mem_inputTable {ds : List (Dict ValueRef)} {x : PortBinding} (hx : x ∈ inputTable a ds) :
    ∃ values, (x.block, values) ∈ (a.patch.placedBlocks.map (·.1)).zip ds ∧ values.get? x.port = some x.value := by
  obtain ⟨⟨⟨ix, b⟩, values⟩, hmem, hx⟩ := List.mem_flatMap.1 hx
  dsimp only at hx
  split at hx
  · cases hx
  · obtain ⟨⟨port, i⟩, -, hx⟩ := List.mem_filterMap.1 hx
    obtain ⟨v, hv, rfl⟩ := Option.map_eq_some_iff.1 hx
    refine ⟨values, ?_, hv⟩
    rw [List.zip_map_left]
    exact List.mem_map_of_mem hmem

/-- What is in the table of outputs is a value that a block was lowered to. -/
theorem exists_of_mem_outputTable {x : PortBinding} (hx : x ∈ outputTable a l) :
    ∃ values, (l.outcome x.block).outputs? = some values ∧ values.get? x.port = some x.value := by
  obtain ⟨⟨ix, b⟩, -, hx⟩ := List.mem_flatMap.1 hx
  dsimp only at hx
  split at hx
  · rename_i values _ hvalues
    obtain ⟨⟨port, i⟩, -, hx⟩ := List.mem_filterMap.1 hx
    obtain ⟨v, hv, rfl⟩ := Option.map_eq_some_iff.1 hx
    exact ⟨values, hvalues, hv⟩
  · cases hx

/-- The table of inputs holds the values of each block under the names of its inputs. -/
theorem value_inputTable {ds : List (Dict ValueRef)} {ix : BlockIx} {b : Block} {d : BlockDecl} {values : Dict ValueRef}
    (hlength : ds.length = a.patch.placedBlocks.length)
    (hds : ∀ x ∈ (a.patch.placedBlocks.map (·.1)).zip ds, x.1 = ix → x.2 = values)
    (hb : a.patch.block? ix = some b) (hd : a.registry.decl? b.type = some d) {port : String} (hport : port ∈ d.inputs.map (·.id)) :
    ((inputTable a ds).find? fun p => p.block = ix ∧ p.port = port).map (·.value) = values.get? port := by
  cases hfind : (inputTable a ds).find? fun p => p.block = ix ∧ p.port = port with
  | some p =>
    obtain ⟨hblock, hname⟩ : p.block = ix ∧ p.port = port := by simpa using List.find?_some hfind
    obtain ⟨values', hmem, hv⟩ := exists_of_mem_inputTable (List.mem_of_find?_eq_some hfind)
    obtain rfl := hds _ hmem hblock
    exact (hname ▸ hv).symm
  | none =>
    refine (Option.eq_none_iff_forall_ne_some.2 fun v hv => ?_).symm
    have hplaced : a.patch.placedBlocks[ix.index]? = some (ix, b) := by
      have hget : a.patch.blocks[ix.index]? = some b := hb
      simp [Normalized.placedBlocks, hget]
    have hlt : ix.index < ds.length := hlength ▸ (List.getElem?_eq_some_iff.1 hplaced).1
    have hmem : ((ix, b), ds[ix.index]) ∈ a.patch.placedBlocks.zip ds :=
      List.mem_of_getElem? (List.getElem?_zip_eq_some.2 ⟨hplaced, List.getElem?_eq_getElem hlt⟩)
    obtain ⟨j, hj⟩ := List.getElem?_of_mem hport
    have hbinding : ⟨ix, j, port, a.types.inputType? ix port, v⟩ ∈ inputTable a ds := by
      refine List.mem_flatMap.2 ⟨_, hmem, ?_⟩
      simp only [hd]
      refine List.mem_filterMap.2 ⟨(port, j), List.mem_zipIdx_iff_getElem?.2 hj, ?_⟩
      have hsame : ds[ix.index] = values := hds (ix, _) (by
        rw [List.zip_map_left]
        exact List.mem_map_of_mem hmem) rfl
      dsimp only
      rw [hsame, hv]
      rfl
    simpa using List.find?_eq_none.1 hfind _ hbinding

/-- The table of outputs holds what each block was lowered to under the names of its outputs. -/
theorem value_outputTable {ix : BlockIx} {b : Block} {d : BlockDecl} (hb : a.patch.block? ix = some b)
    (hd : a.registry.decl? b.type = some d) {port : String} (hport : port ∈ d.outputs.map (·.id)) :
    ((outputTable a l).find? fun p => p.block = ix ∧ p.port = port).map (·.value) = l.output? ix port := by
  cases hfind : (outputTable a l).find? fun p => p.block = ix ∧ p.port = port with
  | some p =>
    obtain ⟨hblock, hname⟩ : p.block = ix ∧ p.port = port := by simpa using List.find?_some hfind
    obtain ⟨values, houtputs, hv⟩ := exists_of_mem_outputTable (List.mem_of_find?_eq_some hfind)
    rw [Lowered.output?, ← hblock, houtputs, Option.bind_some, ← hname, hv]
    rfl
  | none =>
    refine (Option.eq_none_iff_forall_ne_some.2 fun v hv => ?_).symm
    obtain ⟨values, houtputs, hv⟩ := Option.bind_eq_some_iff.1 hv
    obtain ⟨j, hj⟩ := List.getElem?_of_mem hport
    have hbinding : ⟨ix, j, port, a.types.outputType? ix port, v⟩ ∈ outputTable a l := by
      refine List.mem_flatMap.2 ⟨(ix, b), Normalized.mem_placedBlocks.2 hb, ?_⟩
      simp only [hd, houtputs]
      refine List.mem_filterMap.2 ⟨(port, j), List.mem_zipIdx_iff_getElem?.2 hj, ?_⟩
      dsimp only
      rw [hv]
      rfl
    simpa using List.find?_eq_none.1 hfind _ hbinding

end Linking

/-! ## Emissions -/

/-- What is said of the outputs of blocks is said when linking is done. -/
theorem Analysis.outputs_of_clean {a : Analysis} {consts : Pool} {options : Options}
    (hclean : hasErrors (a.emission consts options).afterLink.diagnostics = false) :
    ∃ b, Linking.allOutputDiagnostics a (a.emission consts options).lowered b = [] := by
  let e := a.emission consts options
  let w := ((a.linkInputs e.slots e.lowered).run { builder := e.afterBuses.builder }).2
  refine ⟨w.builder, List.eq_nil_iff_forall_not_mem.2 fun d hd => ?_⟩
  have hsaid : d ∈ e.afterLink.diagnostics := List.mem_append_left _ (List.mem_append_right _ hd)
  exact absurd (List.any_eq_true.2 ⟨d, hsaid, Linking.isError_outputDiagnostics hd⟩) (Bool.eq_false_iff.1 hclean)

/-- An emission from which no connection is lost. -/
structure Emission.Complete (a : Analysis) (e : Emission) : Prop where
  program : e.linked.program = e.afterLink.builder.finish
  inputs : ∀ ix entry, a.entry? ix = some entry → entry.lowering.isSome = true → ∀ input ∈ entry.decl.inputs,
    a.Served ix input.id ((e.linked.input? ix input.id).map (·.value)) e.afterLink.builder
  buses : ∀ ix bus slot, a.patch.bus? ix = some bus → e.slots[ix.index]? = some (some slot) → ∃ o, e.buses[ix.index]? = some o
    ∧ o.effective = (a.patch.publishers bus.id).countP fun x => (a.types.writerType? x).any ValueType.isSlotted

section Emission

variable {a : Analysis} (ha : a.Faithful) (hbuses : a.types.buses.length = a.patch.buses.length)
  (horder : ∀ ix : BlockIx, ix.index < a.patch.blocks.length → ∃ u ∈ a.order, a.graph.node u = .block ix) {consts : Pool}
  {options : Options} (hclean : hasErrors (a.emission consts options).diagnostics = false)

include ha horder hclean

/-- The blocks of a clean emission. -/
theorem Analysis.served_blocks :
    let e := a.emission consts options
    ∃ v, a.ServedSoFar e.slots v e.afterBlocks.builder ∧ e.lowered.forwards = v.forwards
      ∧ (∀ ix : BlockIx, ix.index < a.patch.blocks.length → v.outcomes.lookup ix = some (e.lowered.outcome ix))
      ∧ Regime.sorted.Lowers a e.lowered e.afterBlocks.builder ∧ a.AllRegistered e.lowered ∧ a.Registered v.outcomes := by
  intro e
  have T := ha.routed
  have hinv : Regime.sorted.Inv [] { consts, timeModel := some a.time.model } := fun _ hslot => absurd hslot (Array.not_mem_empty _)
  obtain ⟨hstart, -⟩ := Regime.reserved_reserveBusSlots T Regime.reserves_sorted a.types.buses hinv
  rw [List.nil_append] at hstart
  have htyped := (a.typed_busSlots { consts, timeModel := some a.time.model }).2
  obtain ⟨v, hv, hforwards, houtcomes, hvisited⟩ := Analysis.exists_visited (I := a.ServedSoFar e.slots) hclean
    (fun h => ⟨_, h.good⟩) (fun ix v w => ServedSoFar.lowerBlock ha (isSome_reserveBusSlots a.types.buses _ ·.index))
    ⟨Regime.good_start (w := { builder := _ }) hstart, htyped, nofun, fun _ => nofun⟩
  have hlookup : ∀ ix : BlockIx, ix.index < a.patch.blocks.length → v.outcomes.lookup ix = some (e.lowered.outcome ix) := by
    intro ix hix
    obtain ⟨u, hu, hnode⟩ := horder ix hix
    obtain ⟨o, ho⟩ := Option.isSome_iff_exists.1 (hvisited u hu ix hnode)
    have houtcome : e.lowered.outcome ix = o := by
      rw [Lowered.outcome, houtcomes, List.getElem?_map, List.getElem?_range hix]
      simp [ho]
    rw [ho, houtcome]
  have hlt : ∀ ix port t, a.types.outputType? ix port = some t → ix.index < a.patch.blocks.length := fun ix port t hport => by
    obtain ⟨ports, hports, -⟩ := Option.bind_eq_some_iff.1 hport
    exact ha.lt_of_ports? hports
  have hregistered : a.AllRegistered e.lowered := by
    obtain ⟨b, hsilent⟩ := Analysis.outputs_of_clean (Emission.clean_stages hclean).2.2
    refine Linking.allRegistered ha hsilent fun ix port t hport => ?_
    rcases hv.lowered _ (mem_of_lookup (hlookup ix (hlt ix port t hport))) with hnone | ⟨inputs, outputs, heq⟩
    · cases (ha.lowered ix port t hport).symm.trans (congrArg Option.isSome hnone)
    · have heq : e.lowered.outcome ix = .lowered inputs outputs := heq
      exact ⟨outputs, congrArg BlockOutcome.outputs? heq⟩
  refine ⟨v, hv, hforwards, hlookup, hv.good.lowers houtcomes, hregistered, fun ix o port t ho hport hslotted => ?_⟩
  obtain rfl := Option.some.inj ((hlookup ix (hlt ix port t hport)).symm.trans ho)
  exact hregistered ix port t hport hslotted

include hbuses

/-- In a clean emission, each input of a block that has a lowering is bound to what its writers deliver. -/
theorem Analysis.served_inputs {ix : BlockIx} {entry : BlockEntry} (hentry : a.entry? ix = some entry)
    (hlowering : entry.lowering.isSome = true) {input : InputDecl} (hinput : input ∈ entry.decl.inputs) :
    a.Served ix input.id (((a.emission consts options).linked.input? ix input.id).map (·.value))
      (a.emission consts options).afterLink.builder := by
  let e := a.emission consts options
  obtain ⟨v, hv, hforwards, hlookup, hlowers, -, hregistered⟩ := Analysis.served_blocks ha horder hclean
  have T := ha.routed
  have hinv : Regime.sorted.Inv (e.slots.filterMap id ++ e.lowered.forwards.map (·.slot)) e.afterBlocks.builder := by
    rw [hforwards]
    exact hv.good.inv
  have hfs : Regime.sorted.Forwards a e.lowered.forwards e.afterBlocks.builder := by
    rw [hforwards]
    exact ⟨hv.good.forwards, hv.good.reserved⟩
  -- the program only grows after the block was lowered
  obtain ⟨b, hprepared, hle⟩ := Regime.prepared_of_lowers T Regime.binds_sorted consts options hbuses rfl hinv hlowers hfs
    fun _ => hv.buses
  obtain ⟨-, hle', -⟩ := Regime.builds_pushSteps T Regime.schedules_sorted (e.steps a) hprepared.inv
  rw [← hprepared.builder] at hle'
  obtain ⟨block, hblock, hdecl⟩ := Option.bind_eq_some_iff.1 hentry
  have hmem := mem_of_lookup (hlookup ix (List.getElem?_eq_some_iff.1 hblock).1)
  have hserved := hv.served hregistered _ hmem entry hentry hlowering input hinput
  have hattempted : (e.lowered.outcome ix).attempted = true := by
    rcases hv.lowered _ hmem with hnone | ⟨inputs, outputs, heq⟩
    · rw [Analysis.lowering?, hentry, Option.bind_some] at hnone
      rw [hnone] at hlowering
      cases hlowering
    · have heq : e.lowered.outcome ix = .lowered inputs outputs := heq
      rw [heq]
      rfl
  let w := ((Linking.bindForwards a e.lowered e.lowered.forwards).run { builder := e.afterBuses.builder }).2
  obtain ⟨hlength, hinputs⟩ := Linking.allInputs_attempted a e.slots e.lowered (a.patch.placedBlocks.map (·.1)) w
  have hvalue : (e.linked.input? ix input.id).map (·.value) = (e.lowered.outcome ix).inputs.get? input.id := by
    refine Linking.value_inputTable (hlength.trans (List.length_map _)) (fun x hx hxix => ?_) hblock
      (congrArg (Option.map _) hdecl) (List.mem_map_of_mem hinput)
    rw [hinputs x hx (hxix ▸ hattempted), hxix]
  rw [hvalue]
  exact hserved.mono (hle.trans hle')

omit hbuses in
/-- In a clean emission, each bus that has a slot counts the publishers that deliver a value. -/
theorem Analysis.effective_buses {ix : BusIx} {bus : Bus} (hbus : a.patch.bus? ix = some bus) {slot : SlotId}
    (hslot : (a.emission consts options).slots[ix.index]? = some (some slot)) :
    ∃ o, (a.emission consts options).buses[ix.index]? = some o
      ∧ o.effective = (a.patch.publishers bus.id).countP fun x => (a.types.writerType? x).any ValueType.isSlotted := by
  let e := a.emission consts options
  obtain ⟨v, hv, hforwards, -, hlowers, hall, -⟩ := Analysis.served_blocks ha horder hclean
  have hinv : Regime.sorted.Inv (e.slots.filterMap id ++ e.lowered.forwards.map (·.slot)) e.afterBlocks.builder := by
    rw [hforwards]
    exact hv.good.inv
  have hslots : a.SlotsTyped e.slots := (a.typed_busSlots { consts, timeModel := some a.time.model }).1
  have heffective := BusValue.effective_lowerAll (w := { builder := _ }) ha hall hslots hv.buses
    (fun x hx => Normalized.bus?_of_mem_placedBuses hx) hinv hlowers (Emission.clean_stages hclean).2.1
  have hget : a.patch.buses[ix.index]? = some bus := hbus
  have hplaced : a.patch.placedBuses[ix.index]? = some (ix, bus) := by simp [Normalized.placedBuses, hget]
  have hlt : ix.index < e.buses.length := by
    rw [Emission.length_buses]
    exact (List.getElem?_eq_some_iff.1 hget).1
  have hmem : ((ix, bus), e.buses[ix.index]) ∈ a.patch.placedBuses.zip e.buses :=
    List.mem_of_getElem? (List.getElem?_zip_eq_some.2 ⟨hplaced, List.getElem?_eq_getElem hlt⟩)
  have hjoin : e.slots[ix.index]?.join = some slot := congrArg Option.join hslot
  obtain ⟨t, ht, -⟩ := hslots ix slot hjoin
  refine ⟨e.buses[ix.index], List.getElem?_eq_getElem hlt, (heffective _ hmem slot t hjoin ht).trans ?_⟩
  exact List.countP_congr fun x hx => by rw [Normalized.delivers_of_mem_publishers hx]

/-- No connection is lost in a clean emission. -/
theorem Analysis.complete_emission : (a.emission consts options).Complete a where
  program := a.program_emission consts options
  inputs _ _ hentry hlowering _ hinput := Analysis.served_inputs ha hbuses horder hclean hentry hlowering hinput
  buses _ _ _ hbus hslot := Analysis.effective_buses ha horder hclean hbus hslot

end Emission

end PatchGraph
