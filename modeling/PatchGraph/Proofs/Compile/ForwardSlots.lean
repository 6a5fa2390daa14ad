import PatchGraph.Proofs.Compile.Appending
import PatchGraph.Proofs.Compile.Supply

/-!
# Slots inside cycles

A block is lowered after the blocks that it is wired from, unless these are on a cycle (`Analysis.Directed`), so slots are reserved only
for outputs of blocks on cycles, one for each output. When the program is linked, each of them is given the expression of the output it
stands for; nothing else changes these slots.
-/

namespace PatchGraph

/-! ## Reserved only on cycles -/

namespace Analysis

variable {a : Analysis}

/-- A block is in a component that is a cycle. -/
def OnCycle (a : Analysis) (b : BlockIx) : Prop := ∃ k ∈ a.cycles.components, k.trivial = false ∧ b.index ∈ k.nodes

/-- The blocks that a block is wired from come before it or are on a cycle. -/
def Directed (a : Analysis) : Prop :=
  ∀ front u back ix, a.order = front ++ u :: back → a.graph.node u = .block ix → ∀ port edge id b output,
    .wire edge id b output ∈ a.patch.writers ix port → (∃ v ∈ front, a.graph.node v = .block b) ∨ a.OnCycle b

/-- The scope of blocks that are lowered in order: slots may be reserved for outputs on cycles. -/
def cycleScope (a : Analysis) (slots : BusSlots) (Known : BlockIx → Prop) : Scope :=
  ⟨slots.filterMap id, Known, fun f => a.OnCycle f.block⟩

/-- What a block is made of is in scope when its turn comes. -/
theorem Directed.admits (ha : a.Directed) {slots : BusSlots} {front back : List Nat} {u : Nat} {ix : BlockIx}
    (hsplit : a.order = front ++ u :: back) (hu : a.graph.node u = .block ix) {v : Visited} (hknown : v.Knows a front) (port : String) :
    ∀ x ∈ a.patch.writers ix port, (a.cycleScope slots fun b => (v.outcomes.lookup b).isSome = true).Admits a slots x := by
  intro x hx
  cases x with
  | wire edge id b output =>
    rcases ha front u back ix hsplit hu port edge id b output hx with ⟨w, hw, hnode⟩ | hcycle
    · exact .inl (hknown w hw b hnode)
    · exact .inr fun _ _ => hcycle
  | bus edge id b => exact fun s hs => Scope.mem_base_of_bus hs
  | fallback id c => trivial

/-- While blocks are lowered in order, slots are reserved for outputs of blocks on cycles, at most one for each. -/
theorem Directed.forwards_lowerNodes (ha : a.Directed) (slots : BusSlots) (w : Workbench) :
    let v := (((Visit.lowerNodes a slots a.order).run {}).run w).1.2
    (∀ f ∈ v.forwards, a.OnCycle f.block) ∧ (v.forwards.map fun f => (f.block, f.port)).Nodup := by
  intro v
  have hgood : Regime.free.Good a (a.cycleScope slots fun _ => False) v
      (((Visit.lowerNodes a slots a.order).run {}).run w).2.builder := by
    refine (Visit.lowerNodes_induction
      (I := fun front v w => Regime.free.Good a (a.cycleScope slots fun _ => False) v w.builder ∧ v.Knows a front) ?_ ?_
      (List.nil_append a.order).symm ⟨?_, Visited.knows_nil a _⟩).1
    · intro front u back ix v w _ hu ⟨hgood, hknown⟩
      exact ⟨hgood, hknown.bus hu⟩
    · intro front u back ix v w hsplit hu ⟨hgood, hknown⟩ s
      have hscope : Regime.free.Good a (a.cycleScope slots fun b => (v.outcomes.lookup b).isSome = true) v w.builder :=
        { hgood with known := fun _ => id }
      have hblock := Regime.visits_lowerBlock (Regime.lawful_free a) (fun _ _ _ _ _ _ => Regime.builds_free trivial)
        (ha.admits hsplit hu hknown) hscope
      refine ⟨?_, hknown.block hu (congrArg (· ++ _) hblock.outcomes)⟩
      exact { hblock.good.add hblock.result with known := fun _ => False.elim }
    · have hstart : Regime.free.Good a (.whole a slots) {} w.builder := Regime.good_start trivial
      exact { hstart with forwards := List.forall_mem_nil _ }
  exact ⟨hgood.forwards, hgood.distinct⟩

end Analysis

/-- In the order of a patch each block comes after those that it is wired from, unless they are on a cycle. -/
theorem Patch.directed {p : Patch} {r : Registry} {time : Time} (h : (p.normalize r).1.Passes r time) :
    (p.analysis r time).Directed := by
  intro front u back ix hsplit hu port edge id b output hx
  let n := (p.normalize r).1
  have hx : .wire edge id b output ∈ n.writers ix port := hx
  have hb : b.index < n.blocks.length := Normalized.lt_of_mem_writers hx
  obtain ⟨hlt, rfl⟩ := Normalized.node_eq_block_iff.1 hu
  by_cases hfront : b.index ∈ front
  · exact .inl ⟨b.index, hfront, Normalized.node_eq_block_iff.2 ⟨hb, rfl⟩⟩
  · have hsize : b.index < (n.dependencies r).graph.size := by
      rw [Normalized.size_dependencies]
      exact Nat.lt_add_right _ hb
    exact .inr (DependencyGraph.exists_cycle_of_edge (n.closed_dependencies r) hsplit hsize
      (Normalized.successor_of_mem_writers (p.distinct_normalize r) h.dependencies hlt hx rfl) hfront)

/-! ## Binding -/

namespace Linking

variable {a : Analysis} {l : Lowered}

/-- Binding the slots of outputs changes nothing but these slots. -/
theorem keepsBut_bindForwards (fs : List ForwardSlot) (w : Workbench) :
    w.builder.KeepsBut (fs.map (·.slot)) ((bindForwards a l fs).run w).2.builder := by
  induction fs generalizing w with
  | nil => exact (Builder.Appends.refl _).keepsBut _
  | cons f rest ih =>
    have hrest := fun w => (ih w).mono (List.subset_cons_self f.slot _)
    unfold bindForwards
    dsimp only
    split
    · rename_i source _
      refine Builder.KeepsBut.trans ?_ (hrest _)
      exact (Build.keepsBut_bind w.builder f.slot source).mono (List.cons_subset_cons _ (List.nil_subset _))
    · exact hrest ((Emit.report (unboundForward (a.patch.blockId f.block) f.port)).run w).2

/-- A slot of an output that is there is given its expression. -/
theorem slots_bindForwards {fs : List ForwardSlot} (hnodup : (fs.map (·.slot)).Nodup) {w : Workbench} {f : ForwardSlot} (hf : f ∈ fs)
    {t : ValueType} (ht : w.builder.slotType? f.slot = some t) {source : SlotSource}
    (hsource : (l.output? f.block f.port).bind ValueRef.source? = some source) :
    ((bindForwards a l fs).run w).2.builder.slots[f.slot.index]? = some ⟨t, source⟩ := by
  induction fs generalizing w with
  | nil => cases hf
  | cons g rest ih =>
    obtain ⟨hnew, hnodup⟩ := List.nodup_cons.1 hnodup
    rcases List.mem_cons.1 hf with rfl | hf
    · unfold bindForwards
      rw [hsource]
      -- the slots that follow are others
      refine (keepsBut_bindForwards rest _).slots f.slot hnew _ ?_
      obtain ⟨slot, hslot, rfl⟩ := Option.map_eq_some_iff.1 ht
      show ((Build.bind f.slot source).run w.builder).2.slots[f.slot.index]? = _
      rw [Build.slots_bind, if_pos rfl, hslot]
      rfl
    · unfold bindForwards
      dsimp only
      split
      · exact ih hnodup hf ((Build.keepsBut_bind w.builder g.slot _).types f.slot t ht)
      · exact ih hnodup hf ht

/-- A slot of an output that is not there is reported. -/
theorem reports_bindForwards {fs : List ForwardSlot} {f : ForwardSlot} (hf : f ∈ fs)
    (hnone : (l.output? f.block f.port).bind ValueRef.source? = none) (w : Workbench) :
    unboundForward (a.patch.blockId f.block) f.port ∈ ((bindForwards a l fs).run w).2.diagnostics := by
  induction fs generalizing w with
  | nil => cases hf
  | cons g rest ih =>
    have hsays : (bindForwards a l rest).Says fun _ => True := says_bindForwards fun _ _ => trivial
    unfold bindForwards
    rcases List.mem_cons.1 hf with rfl | hf
    · rw [hnone]
      exact hsays.mem (List.mem_append_right _ (List.mem_singleton_self _))
    · dsimp only
      split
      · exact ih hf _
      · exact ih hf _

/-- Once all inputs are resolved, a slot that was reserved for an output has the type it had, and its source is the expression of the
output, unless it was reported. -/
theorem slots_linkInputs (hr : a.registry.AppendOnly) {slots : BusSlots} {w : Workbench}
    (hinv : Regime.appends.Inv (slots.filterMap id ++ l.forwards.map (·.slot)) w.builder) (hl : Regime.appends.Lowers a l w.builder)
    {f : ForwardSlot} (hf : f ∈ l.forwards) {t : ValueType} (ht : w.builder.slotType? f.slot = some t) :
    let w' := ((a.linkInputs slots l).run w).2
    ∃ source, w'.builder.slots[f.slot.index]? = some ⟨t, source⟩
      ∧ (unboundForward (a.patch.blockId f.block) f.port ∈ w'.diagnostics ∨ ∃ v, l.output? f.block f.port = some v ∧ v.source? = some source) := by
  intro w'
  let bound := ((bindForwards a l l.forwards).run w).2
  have hkept : w.builder.KeepsBut _ bound.builder := keepsBut_bindForwards l.forwards w
  have hnodup : (l.forwards.map (·.slot)).Nodup := (List.nodup_append.1 hinv.1).2.1
  let blocks : List BlockIx := a.patch.placedBlocks.map (·.1)
  have hlast : bound.builder.Appends w'.builder :=
    (Regime.emits_allInputs (Regime.lawful_appends hr).toRouted blocks (Regime.inv_appends hinv hkept)
      fun ix => (hl ix).imp id fun v _ => Regime.raw_appends _ v).2.1
  cases hsource : (l.output? f.block f.port).bind ValueRef.source? with
  | some source =>
    exact ⟨source, hlast.slot? (slots_bindForwards hnodup hf ht hsource), .inr (Option.bind_eq_some_iff.1 hsource)⟩
  | none =>
    obtain ⟨slot, hslot, rfl⟩ := Option.map_eq_some_iff.1 (hkept.types f.slot t ht)
    exact ⟨slot.source, hlast.slot? hslot, .inl ((says_allInputs slots _).mem (reports_bindForwards hf hsource w))⟩

end Linking

/-! ## Emissions -/

/-- What holds of a slot that was reserved for an output once a program is linked: it has the type of the output, and unless it was
reported, its source is the expression of the output. -/
structure Emission.Binds (e : Emission) (a : Analysis) (f : ForwardSlot) (t : ValueType) (source : SlotSource) : Prop where
  type : a.types.outputType? f.block f.port = some t
  slot : e.afterLink.builder.slots[f.slot.index]? = some ⟨t, source⟩
  output : Linking.unboundForward (a.patch.blockId f.block) f.port ∈ e.afterLink.diagnostics
    ∨ ∃ v, e.lowered.output? f.block f.port = some v ∧ v.source? = some source

/-- Linking gives all slots that were reserved for outputs their sources, and neither the buses nor the schedule touch them. -/
theorem Analysis.binds_emission {a : Analysis} (hr : a.registry.AppendOnly) (consts : Pool) (options : Options) :
    let e := a.emission consts options
    ∀ f ∈ e.lowered.forwards, ∃ t source, e.Binds a f t source := by
  intro e f hf
  obtain ⟨hinv, -, hl, hforwards⟩ := appends_emission hr consts options
  obtain ⟨t, ht, hslot⟩ := hforwards.reserved trivial f hf
  have hbuses : e.afterBlocks.builder.KeepsBut _ e.afterBuses.builder :=
    Regime.keepsBut_lowerAll (w := { builder := _ }) hr (a.typed_busSlots _).1 a.patch.placedBuses hinv
  obtain ⟨source, hsource, houtput⟩ := Linking.slots_linkInputs (w := { builder := e.afterBuses.builder }) hr
    (Regime.inv_appends hinv hbuses) (fun ix => (hl ix).imp id fun v _ => Regime.raw_appends _ v) hf (hbuses.types f.slot t hslot)
  let w := ((a.linkInputs e.slots e.lowered).run { builder := e.afterBuses.builder }).2
  have hprogram : e.afterLink.builder = ((Linking.pushSteps (e.steps a)).run w.builder).2 := rfl
  refine ⟨t, source, ht, ?_, houtput.imp_left fun hsaid => ?_⟩
  · rw [hprogram, Linking.run_pushSteps]
    exact hsource
  · exact List.mem_append_left _ (List.mem_append_left _ hsaid)

/-- Slots are reserved for outputs of blocks on cycles, at most one for each. -/
theorem Analysis.Directed.forwards_emission {a : Analysis} (ha : a.Directed) (consts : Pool) (options : Options) :
    let e := a.emission consts options
    (∀ f ∈ e.lowered.forwards, a.OnCycle f.block) ∧ (e.lowered.forwards.map fun f => (f.block, f.port)).Nodup :=
  ha.forwards_lowerNodes (a.emission consts options).slots _

/-- A linked program shows what blocks were lowered to. -/
theorem Analysis.output_emission {a : Analysis} (consts : Pool) (options : Options) :
    let e := a.emission consts options
    ∀ ix port block decl output, a.patch.block? ix = some block → a.registry.decl? block.type = some decl →
      decl.outputs.find? (·.id = port) = some output → (e.linked.output? ix port).map (·.value) = e.lowered.output? ix port := by
  intro e ix port block decl output hblock hdecl houtput
  refine Linking.value_outputTable hblock hdecl (List.mem_map.2 ⟨output, List.mem_of_find?_eq_some houtput, ?_⟩)
  simpa using List.find?_some houtput

/-! ## Compiling -/

/-- Slots are reserved inside cycles only, and they end up with the right source. For each of them the block it stands for is in a cycle,
it has the declared type of the output, no other one stands for the same output, and unless the output is reported as missing, its
source is the expression that the block was lowered to, which is the one that the linked program shows for the output. -/
theorem forward_slots_bound {p : Patch} {r : Registry} {options : Options} (hr : r.Loaded) {l : Linked}
    (hl : (compile p r options).linked = some l) :
    let n := (p.normalize r).1
    ∃ lowered, (Compilation.run { patch := p, registry := r, options } .link).state.artifacts.lowered = some lowered
      ∧ (lowered.forwards.map fun f => (f.block, f.port)).Nodup
      ∧ ∀ f ∈ lowered.forwards,
        (∃ k ∈ ((n.dependencies r).condense n r).components, k.trivial = false ∧ ∃ u ∈ k.nodes, (n.dependencies r).node u = .block f.block)
        ∧ ∃ block decl output slot, n.block? f.block = some block ∧ r.decl? block.type = some decl
          ∧ decl.outputs.find? (·.id = f.port) = some output ∧ l.program.slot? f.slot = some slot
          ∧ ValueType.parse? output.type = some slot.type
          ∧ ((¬∃ d ∈ (compile p r options).diagnostics, d.code = some .missingOutput ∧ d.locator = .port (n.blockId f.block) f.port) →
            ∃ v, lowered.output? f.block f.port = some v ∧ (l.output? f.block f.port).map (·.value) = some v
              ∧ v.source? = some slot.source) := by
  intro n
  obtain ⟨time, hpasses, hprogram⟩ := passes_of_linked hl
  obtain ⟨-, hsaid, hlowered⟩ := hpasses.compile_eq options
  have hbinds := Analysis.binds_emission (a := p.analysis r time) hr.standard.appendOnly (p.normalize r).2 options
  obtain ⟨hcycles, hdistinct⟩ := (p.directed hpasses).forwards_emission (p.normalize r).2 options
  have houtputs := Analysis.output_emission (a := p.analysis r time) (p.normalize r).2 options
  have hslots := Analysis.program_emission (p.analysis r time) (p.normalize r).2 options
  generalize (p.analysis r time).emission (p.normalize r).2 options = e
    at hprogram hsaid hlowered hbinds hcycles hdistinct houtputs hslots
  subst hprogram
  refine ⟨e.lowered, hlowered, hdistinct, fun f hf => ?_⟩
  obtain ⟨k, hk, htrivial, hmem⟩ := hcycles f hf
  obtain ⟨t, source, ht, hslot, hsource⟩ := hbinds f hf
  obtain ⟨block, decl, output, hblock, hdecl, houtput, hparse⟩ := Typing.declared_of_outputType? ht
  have hnode : (n.dependencies r).node f.block.index = .block f.block :=
    Normalized.node_eq_block_iff.2 ⟨(List.getElem?_eq_some_iff.1 hblock).1, rfl⟩
  refine ⟨⟨k, hk, htrivial, f.block.index, hmem, hnode⟩, block, decl, output, ⟨t, source⟩, hblock, hdecl, houtput, ?_, hparse,
    fun hsilent => ?_⟩
  · rw [hslots]
    exact (Array.getElem?_toList).trans hslot
  · rcases hsource with hreported | ⟨v, hv, hsource⟩
    · have hmem : Linking.unboundForward (n.blockId f.block) f.port ∈ (compile p r options).diagnostics := by
        rw [hsaid]
        exact List.mem_append_right _ (List.mem_append_left _ hreported)
      exact absurd ⟨_, hmem, rfl, rfl⟩ hsilent
    · refine ⟨v, hv, ?_, hsource⟩
      rw [← hv]
      exact houtputs f.block f.port block decl output hblock hdecl houtput

namespace SineLoop

/-- A delay and a sine that are wired to each other. -/
def patch : Patch where
  blocks := [⟨"a", "Delay", {}, {}⟩, ⟨"b", "Sin", {}, {}⟩, ⟨"t", "InfiniteTimeRoot", {}, {}⟩]
  edges := [{ id := "e1", source := .port "a" "out", target := .port "b" "in" },
    { id := "e2", source := .port "b" "out", target := .port "a" "in" }]
  buses := []

def normal : Normalized := ⟨patch.blocks, patch.buses, patch.edges, {}, []⟩

def time : Time := ⟨⟨2⟩, .infinite (.ofInt 10000)⟩

def analysis : Analysis where
  patch := normal
  types := Typing.table normal .builtin
  time := time
  graph := normal.dependencies .builtin
  cycles := ⟨[⟨[0, 1], false, true⟩, ⟨[2], true, true⟩]⟩
  registry := .builtin

/-- The loop is written in normal order. -/
theorem normalize_eq : patch.normalize .builtin = (normal, {}) := by
  have hnormal : patch.Canonical ∧ patch.blocks.zipIdx.flatMap (fun x => Patch.openInputs .builtin patch.edges ⟨x.2⟩ x.1) = [] := by
    decide +kernel
  exact hnormal.1.normalize_eq hnormal.2

def graph : DependencyGraph := ⟨3, 0, [⟨0, 1, .wire, 0, "e1"⟩, ⟨1, 0, .wire, 1, "e2"⟩], ⟨#[[1], [0], []]⟩⟩

/-- What is known of the loop: the delay comes first and reads a slot for the output of the sine. -/
theorem checks_eq : normal.dependencies .builtin = graph
    ∧ normal.typeDiagnostics .builtin = [] ∧ Time.resolve normal .builtin = .ok time ∧ normal.dependencyDiagnostics .builtin = []
    ∧ (analysis.emission {} {}).lowered.forwards = [⟨⟨1⟩, ⟨1⟩, "out"⟩] ∧ (analysis.emission {} {}).diagnostics = [] := by
  decide +kernel

theorem condense_eq : (normal.dependencies .builtin).condense normal .builtin = analysis.cycles := by
  rw [checks_eq.1]
  decide +kernel

theorem passes : (patch.normalize .builtin).1.Passes .builtin time := by
  rw [normalize_eq]
  have hcycles : (normal.dependencies .builtin).cycleDiagnostics normal .builtin = [] := by
    rw [DependencyGraph.cycleDiagnostics, condense_eq]
    rfl
  obtain ⟨-, htypes, htime, hdependencies, -⟩ := checks_eq
  exact ⟨htypes, htime, hdependencies, hcycles⟩

theorem analysis_eq : patch.analysis .builtin time = analysis := by
  rw [Patch.analysis, normalize_eq, condense_eq]
  rfl

end SineLoop

/-- The slot that the delay reads is given the expression of the sine. -/
theorem forward_slots_bound_sineLoop :
    ∃ l lowered slot v, (compile SineLoop.patch .builtin {}).linked = some l
      ∧ (Compilation.run { patch := SineLoop.patch, registry := .builtin, options := {} } .link).state.artifacts.lowered = some lowered
      ∧ lowered.forwards = [⟨⟨1⟩, ⟨1⟩, "out"⟩] ∧ l.program.slot? ⟨1⟩ = some slot ∧ lowered.output? ⟨1⟩ "out" = some v
      ∧ (l.output? ⟨1⟩ "out").map (·.value) = some v ∧ v.source? = some slot.source := by
  obtain ⟨hlinked, hsaid, hlowered⟩ := SineLoop.passes.compile_eq {}
  rw [SineLoop.analysis_eq, SineLoop.normalize_eq] at hlinked hsaid hlowered
  obtain ⟨-, -, -, -, hforwards, hsilent⟩ := SineLoop.checks_eq
  generalize SineLoop.analysis.emission {} {} = e at hlinked hsaid hlowered hforwards hsilent
  obtain ⟨lowered, hlowered', -, hbound⟩ := forward_slots_bound .builtin hlinked
  obtain rfl := Option.some.inj (hlowered.symm.trans hlowered')
  obtain ⟨-, _, _, _, slot, -, -, -, hslot, -, hsource⟩ := hbound _ (hforwards ▸ List.mem_singleton_self _)
  obtain ⟨v, hv, hshown, hsource⟩ := hsource fun ⟨d, hd, _⟩ => by
    rw [hsaid, hsilent] at hd
    cases hd
  exact ⟨_, _, slot, v, hlinked, hlowered, hforwards, hslot, hv, hshown, hsource⟩

end PatchGraph
