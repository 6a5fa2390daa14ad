import PatchGraph.Proofs.Compile.Supply
import PatchGraph.Proofs.Graph.Links

/-!
# No connection is lost

In a patch that compiles without an error against the built-in registry, every input of a lowered block is bound exactly if one of its
writers delivers a value, and if several do, it is bound to a node that combines them all. Likewise, every bus counts all its publishers
that deliver a value.
-/

namespace PatchGraph

/-! ## Registries that keep their promises -/

/-- A registry whose block types have what their declarations promise, and whose transforms do what is declared of them. -/
structure Registry.Faithful (r : Registry) : Prop extends r.Candid where
  truthful : r.Truthful
  lowered : ∀ e ∈ r.blocks.values, e.decl.outputs ≠ [] → e.lowering.isSome = true
  noConst : ∀ e ∈ r.blocks.values, ∀ o ∈ e.decl.outputs, ∀ t ∈ ValueType.parse? o.type, t.representation ≠ .const
  inputs : ∀ e ∈ r.blocks.values, (e.decl.inputs.map (·.id)).Nodup

/-- The built-in registry keeps its promises. -/
theorem Registry.faithful_builtin : Registry.builtin.Faithful := by
  have hall : (∀ e ∈ builtin.adapters.values, ∀ rule ∈ e.transform.bind Transform.rule?, rule.isDeclaredBy e.decl.effect = true)
      ∧ (∀ e ∈ builtin.lenses.values, ∀ rule ∈ e.transform.bind Transform.rule?, rule.keepsForm = true)
      ∧ (∀ e ∈ builtin.blocks.values, e.decl.outputs ≠ [] → e.lowering.isSome = true)
      ∧ (∀ e ∈ builtin.blocks.values, ∀ o ∈ e.decl.outputs, ∀ t ∈ ValueType.parse? o.type, t.representation ≠ .const)
      ∧ ∀ e ∈ builtin.blocks.values, (e.decl.inputs.map (·.id)).Nodup := by
    decide +kernel
  obtain ⟨hadapters, hlenses, hlowered, hnoConst, hinputs⟩ := hall
  exact {
    toStandard := Registry.Loaded.builtin.standard
    adapters := fun e he rule hrule => hadapters e he rule (Option.bind_eq_some_iff.2 ⟨_, hrule, rfl⟩)
    lenses := fun e he rule hrule => hlenses e he rule (Option.bind_eq_some_iff.2 ⟨_, hrule, rfl⟩)
    truthful := Registry.truthful_builtin
    lowered := hlowered
    noConst := hnoConst
    inputs := hinputs }

/-! ## Checked edges -/

/-- The type that an edge starts from has, after the adapters on the edge, a conversion to the type that it leads to. -/
theorem Normalized.Passes.conversion {n : Normalized} {r : Registry} {time : Time} (h : n.Passes r time) {e : Edge} (he : e ∈ n.edges)
    {t : ValueType} (ht : Typing.targetType? n (Typing.table n r) e.target = some t) :
    ∃ u, Typing.sourceType? n (Typing.table n r) e.source = some u
      ∧ ((Typing.adaptedType r u e.adapters).conversion? t).isSome = true := by
  obtain ⟨x, hx⟩ := Normalized.Checked.exists_typing ⟨h.types, h.dependencies⟩ he
  obtain ⟨hsource, htarget, hadapted, hconversion⟩ := Typing.edgeTyping?_eq_some hx
  obtain rfl := Option.some.inj (htarget.symm.trans ht)
  refine ⟨x.source, hsource, ?_⟩
  rw [← hadapted, hconversion]
  rfl

section Analysis

variable {p : Patch} {r : Registry} {time : Time} (h : (p.normalize r).1.Passes r time)

include h

/-- An edge that is a writer has a conversion to the type of its target. -/
theorem Patch.connects_edge {e : Edge} {i : Nat} (he : (p.normalize r).1.edges[i]? = some e) {x : Writer}
    (hx : (p.normalize r).1.writerOf? e i = some x) {t : ValueType}
    (ht : Typing.targetType? (p.normalize r).1 (Typing.table (p.normalize r).1 r) e.target = some t) :
    (p.analysis r time).Connects t x := by
  intro _
  obtain ⟨u, hu, hconversion⟩ := h.conversion (List.mem_of_getElem? he) ht
  unfold Normalized.writerOf? at hx
  split at hx
  · rename_i block port hsource
    obtain ⟨b, hb, rfl⟩ := Option.map_eq_some_iff.1 hx
    rw [hsource, Typing.sourceType?, hb, Option.bind_some] at hu
    exact ⟨e, u, he, hu, hconversion⟩
  · rename_i id hsource
    obtain ⟨b, hb, rfl⟩ := Option.map_eq_some_iff.1 hx
    rw [hsource, Typing.sourceType?, hb, Option.bind_some] at hu
    exact ⟨e, u, he, hu, hconversion⟩

/-- In a checked patch the writers of an input connect to it. -/
theorem Patch.connects_writers {ix : BlockIx} {port : String} {t : ValueType}
    (ht : (p.analysis r time).types.inputType? ix port = some t) :
    ∀ x ∈ (p.normalize r).1.writers ix port, (p.analysis r time).Connects t x := by
  intro x hx
  obtain ⟨ports, hports, -⟩ := Option.bind_eq_some_iff.1 ht
  obtain ⟨b, -, hb, -⟩ := Typing.decl_of_ports? hports
  have hlt : ix.index < (p.normalize r).1.blocks.length := (List.getElem?_eq_some_iff.1 hb).1
  rcases Normalized.mem_writers.1 hx with ⟨i, e, he, htarget, hwriter⟩ | hx
  · refine Patch.connects_edge h he hwriter ?_
    rw [htarget, Typing.targetType?, (p.distinct_normalize r).blockIx?_blockId hlt, Option.bind_some]
    exact ht
  · obtain ⟨d, -, rfl⟩ := Option.map_eq_some_iff.1 hx
    intro hedge
    cases hedge

/-- In a checked patch the publishers of a bus connect to it. -/
theorem Patch.connects_publishers {ix : BusIx} {bus : Bus} {t : ValueType} (hbus : (p.normalize r).1.bus? ix = some bus)
    (ht : (p.analysis r time).types.busType? ix = some t) :
    ∀ x ∈ (p.normalize r).1.publishers bus.id, (p.analysis r time).Connects t x := by
  intro x hx
  obtain ⟨i, e, -, -, he, -, htarget, hwriter⟩ := Normalized.mem_publishers.1 hx
  refine Patch.connects_edge h he hwriter ?_
  rw [htarget, Typing.targetType?, (p.distinct_normalize r).busIx?_id hbus, Option.bind_some]
  exact ht

/-- A patch that passes its checks has sound connections if its registry keeps its promises. -/
theorem Registry.Faithful.analysis (hr : r.Faithful) : (p.analysis r time).Faithful := by
  have hports := fun ix => Typing.ports?_table (p.normalize r).1 r ix
  have houtput : ∀ ix port t, (p.analysis r time).types.outputType? ix port = some t → ∃ entry ∈ r.blocks.values,
      Analysis.entry? (p.analysis r time) ix = some entry ∧ ∃ o ∈ entry.decl.outputs, ValueType.parse? o.type = some t := by
    intro ix port t ht
    obtain ⟨ports, hsome, hport⟩ := Option.bind_eq_some_iff.1 ht
    obtain ⟨d, hd, rfl⟩ := Option.map_eq_some_iff.1 ((hports ix).symm.trans hsome)
    obtain ⟨b, hb, hd⟩ := Option.bind_eq_some_iff.1 hd
    obtain ⟨entry, hentry, rfl⟩ := Option.map_eq_some_iff.1 hd
    obtain ⟨o, ho, heq⟩ := List.mem_map.1 (mem_of_portType? hport)
    exact ⟨entry, Dict.mem_values_of_get? hentry, Option.bind_eq_some_iff.2 ⟨b, hb, hentry⟩, o, ho, (Prod.mk.inj heq).2⟩
  refine ⟨hr.toCandid, hr.truthful.analysis p time, hports, fun ix port t ht => ?_, fun ix port t ht => ?_, fun ix d hd => ?_,
    fun ix port t ht => Patch.connects_writers h ht, fun ix bus t hbus ht => Patch.connects_publishers h hbus ht⟩
  · obtain ⟨entry, hmem, hentry, o, ho, -⟩ := houtput ix port t ht
    rw [Analysis.lowering?, hentry, Option.bind_some]
    exact hr.lowered entry hmem (List.ne_nil_of_mem ho)
  · obtain ⟨entry, hmem, -, o, ho, hparse⟩ := houtput ix port t ht
    exact hr.noConst entry hmem o ho t hparse
  · obtain ⟨b, -, hd⟩ := Option.bind_eq_some_iff.1 hd
    obtain ⟨entry, hentry, rfl⟩ := Option.map_eq_some_iff.1 hd
    exact hr.inputs entry (Dict.mem_values_of_get? hentry)

end Analysis

/-! ## Clean compilations -/

/-- The type of a port is the one that it is declared with, if no other port has its name. -/
theorem portType?_of_mem {ports : List (String × Option ValueType)} (hnodup : (ports.map (·.1)).Nodup) {x : String × Option ValueType}
    (hx : x ∈ ports) : portType? ports x.1 = x.2 := by
  induction ports with
  | nil => exact absurd hx List.not_mem_nil
  | cons y rest ih =>
    rw [List.map_cons, List.nodup_cons] at hnodup
    rcases List.mem_cons.1 hx with rfl | hx
    · simp [portType?]
    · have hne : y.1 ≠ x.1 := fun heq => hnodup.1 (heq ▸ List.mem_map_of_mem hx)
      rw [portType?, List.find?_cons_of_neg (by simpa using hne)]
      exact ih hnodup.2 hx

namespace Analysis

variable {a : Analysis}

/-- The type of an input is the one that is declared for it. -/
theorem Faithful.inputType?_eq (ha : a.Faithful) {ix : BlockIx} {entry : BlockEntry} (hentry : a.entry? ix = some entry) {input : InputDecl}
    (hinput : input ∈ entry.decl.inputs) : a.types.inputType? ix input.id = ValueType.parse? input.type := by
  have hdecl := Visit.decl?_of_entry hentry
  rw [TypeTable.inputType?, ha.ports ix, hdecl, Option.map_some, Option.bind_some]
  have hnames : (Typing.portTypes entry.decl).inputs.map (·.1) = entry.decl.inputs.map (·.id) := List.map_map
  have hnodup : ((Typing.portTypes entry.decl).inputs.map (·.1)).Nodup := by
    rw [hnames]
    exact ha.inputs ix entry.decl hdecl
  exact portType?_of_mem hnodup (List.mem_map_of_mem hinput)

/-- An input that is bound to what its writers deliver, in a linked program. -/
theorem Served.linked {l : Linked} {b : Builder} (hprogram : l.program = b.finish) {ix : BlockIx} {port : String}
    (h : a.Served ix port ((l.input? ix port).map (·.value)) b) {t : ValueType} (ht : a.types.inputType? ix port = some t)
    (hslotted : t.isSlotted = true) :
    let k := (a.patch.writers ix port).countP (·.delivers a.types t)
    ((l.input? ix port).isSome = true ↔ 1 ≤ k)
      ∧ (2 ≤ k → ∃ x, l.input? ix port = some x ∧ l.program.terms? x.value = some k) := by
  intro k
  obtain ⟨hsome, hterms⟩ := h t ht hslotted
  rw [Option.isSome_map] at hsome
  refine ⟨hsome, fun hk => ?_⟩
  obtain ⟨v, hv, hcombined⟩ := Option.bind_eq_some_iff.1 (hterms hk)
  obtain ⟨x, hx, rfl⟩ := Option.map_eq_some_iff.1 hv
  exact ⟨x, hx, hprogram ▸ hcombined⟩

end Analysis

/-- In a clean compilation against the built-in registry no connection is lost: an input of a block with a lowering is bound exactly if
one of its writers delivers a value, and to a node that combines them all if several do; and a bus counts every publisher that starts
from something that lives in a slot. -/
theorem connections_kept {p : Patch} {options : Options} (h : hasErrors (compile p .builtin options).diagnostics = false) :
    let n := (p.normalize .builtin).1
    let types := Typing.table n .builtin
    let artifacts := (Compilation.run { patch := p, registry := .builtin, options } .link).state.artifacts
    ∃ l buses slots, (compile p .builtin options).linked = some l ∧ artifacts.buses = some buses ∧ artifacts.busSlots = some slots
      ∧ (∀ ix block entry, n.block? ix = some block → Registry.builtin.block? block.type = some entry → entry.lowering.isSome = true →
        ∀ input ∈ entry.decl.inputs, ∀ t, ValueType.parse? input.type = some t → t.isSlotted = true →
          let k := (n.writers ix input.id).countP (·.delivers types t)
          ((l.input? ix input.id).isSome = true ↔ 1 ≤ k)
            ∧ (2 ≤ k → ∃ x, l.input? ix input.id = some x ∧ l.program.terms? x.value = some k))
      ∧ ∀ ix bus slot, n.bus? ix = some bus → slots[ix.index]? = some (some slot) → ∃ o, buses[ix.index]? = some o
        ∧ o.effective = (n.publishers bus.id).countP fun x => (types.writerType? x).any ValueType.isSlotted := by
  -- nothing else is known of the built-in registry
  have hr := Registry.faithful_builtin
  generalize Registry.builtin = r at h hr ⊢
  intro n types artifacts
  obtain ⟨time, hpasses, hclean⟩ := clean_compile h
  have ha : (p.analysis r time).Faithful := hr.analysis hpasses
  have hcomplete := Analysis.complete_emission ha (List.length_map _) Patch.exists_order hclean
  obtain ⟨-, hbuses, hslots⟩ := hpasses.artifacts_eq options
  refine ⟨_, _, _, (hpasses.compile_eq options).1, hbuses, hslots, ?_⟩
  generalize (p.analysis r time).emission (p.normalize r).2 options = e at hcomplete
  refine ⟨fun ix block entry hblock hentry hl input hinput t ht hslotted => ?_, hcomplete.buses⟩
  have hentry : Analysis.entry? (p.analysis r time) ix = some entry := Option.bind_eq_some_iff.2 ⟨block, hblock, hentry⟩
  have htype := (ha.inputType?_eq hentry hinput).trans ht
  exact (hcomplete.inputs ix entry hentry hl input hinput).linked hcomplete.program htype hslotted

/-! ## Two constants into one input and one bus -/

namespace Visit

variable {a : Analysis} {slots : BusSlots} {ix : BlockIx}

/-- A block with one input is lowered with what the input is resolved to. -/
theorem lowerBlock_of_input {b : Block} {entry : BlockEntry} {l : Lowering} {ports : PortTypes} {input : InputDecl}
    (hb : a.patch.block? ix = some b) (hentry : a.entry? ix = some entry) (hl : entry.lowering = some l)
    (hports : a.types.ports? ix = some ports) (hinputs : entry.decl.inputs = [input]) :
    lowerBlock a slots ix = (do
      let run := runLowering entry.decl l ⟨ix, b.id, b.params, ports.outputs, a.time.model⟩ b
      match ← resolveInput a slots ix input with
      | .unbound => run {}
      | .bound v => run (Dict.insert {} input.id v)
      | .rejected => return .rejected) := by
  have hlowering : a.lowering? ix = some l := Option.bind_eq_some_iff.2 ⟨entry, hentry, hl⟩
  rw [lowerBlock, hb, hentry, hlowering, hports]
  dsimp only
  rw [hinputs, resolveInputs, bind_assoc]
  congr 1
  funext res
  cases res <;> rfl

/-- The last of several nodes. -/
theorem lowerNodes_concat {u : Nat} (hu : a.graph.node u = .block ix) (us : List Nat) :
    lowerNodes a slots (us ++ [u]) = (do
      lowerNodes a slots us
      let o ← lowerBlock a slots ix
      modify fun v => { v with outcomes := v.outcomes ++ [(ix, o)] }) := by
  induction us with
  | nil =>
    rw [List.nil_append, lowerNodes, lowerNodes, pure_bind]
    simp only [hu, lowerNodes, bind_pure_unit]
  | cons x rest ih =>
    rw [List.cons_append, lowerNodes, ih, lowerNodes]
    cases a.graph.node x with
    | bus => rfl
    | block b => simp only [bind_assoc]

end Visit

namespace TwoConstants

/-- Two constants that are both wired to a sine and published to a bus. -/
def patch : Patch where
  blocks := [⟨"a", "Const", {}, {}⟩, ⟨"b", "Const", {}, {}⟩, ⟨"s", "Sin", {}, {}⟩, ⟨"t", "InfiniteTimeRoot", {}, {}⟩]
  edges := [{ id := "e1", source := .port "a" "out", target := .port "s" "in" },
    { id := "e2", source := .port "b" "out", target := .port "s" "in" },
    { id := "e3", source := .port "a" "out", target := .bus "k" },
    { id := "e4", source := .port "b" "out", target := .bus "k" }]
  buses := [{ id := "k", type := "Signal<float>" }]

def normal : Normalized := ⟨patch.blocks, patch.buses, patch.edges, {}, []⟩

def time : Time := ⟨⟨3⟩, .infinite (.ofInt 10000)⟩

def analysis : Analysis where
  patch := normal
  types := Typing.table normal .builtin
  time := time
  graph := normal.dependencies .builtin
  cycles := (normal.dependencies .builtin).condense normal .builtin
  registry := .builtin

/-- The patch is written in normal order. -/
theorem normalize_eq : patch.normalize .builtin = (normal, {}) := by
  have hnormal : patch.Canonical ∧ patch.blocks.zipIdx.flatMap (fun x => Patch.openInputs .builtin patch.edges ⟨x.2⟩ x.1) = [] := by
    decide +kernel
  exact hnormal.1.normalize_eq hnormal.2

theorem analysis_eq : patch.analysis .builtin time = analysis := by
  rw [Patch.analysis, normalize_eq]
  rfl

/-- The entry of sines. -/
def sine : BlockEntry := ⟨Registry.unaryDecl "Sin" "sin", some (.kind (.map .sin)), Registry.builtinOrigin⟩

theorem block?_sine : Registry.builtin.block? "Sin" = some sine := rfl

/-- The type of the input and the output of a sine. -/
def number : ValueType := { world := .signal, domain := .float }

/-- The writers of the input. -/
def wires : List Writer := [.wire 0 "e1" ⟨0⟩ "out", .wire 1 "e2" ⟨1⟩ "out"]

theorem writers_eq : normal.writers ⟨2⟩ "in" = wires := by
  have hwires : (normal.edgesInto (.port (normal.blockId ⟨2⟩) "in")).filterMap (fun e => normal.writerOf? e.1 e.2)
      ++ (normal.fallbackWriter? ⟨2⟩ "in").toList = wires := by
    decide
  rw [Normalized.writers, hwires]
  exact List.mergeSort_of_pairwise (by decide)

/-- What is known of the patch before it is compiled. Both constants count, at the sine and at the bus. -/
theorem checks_eq :
    (normal.typeDiagnostics .builtin = [] ∧ Time.resolve normal .builtin = .ok time
      ∧ normal.dependencyDiagnostics .builtin = [] ∧ (normal.dependencies .builtin).cycleDiagnostics normal .builtin = [])
    ∧ analysis.types.ports? ⟨2⟩ = some ⟨[("in", some number)], [("out", some number)]⟩
    ∧ analysis.order = [3, 1, 0, 4, 2]
    ∧ wires.countP (·.delivers (Typing.table normal .builtin) number) = 2
    ∧ ((normal.publishers "k").countP fun x => ((Typing.table normal .builtin).writerType? x).any ValueType.isSlotted) = 2 := by
  decide +kernel

theorem passes : (patch.normalize .builtin).1.Passes .builtin time := by
  rw [normalize_eq]
  obtain ⟨⟨htypes, htime, hdependencies, hcycles⟩, -⟩ := checks_eq
  exact ⟨htypes, htime, hdependencies, hcycles⟩

/-- The lowering of the sine from what the two constants give it. -/
def lowerSine (slots : BusSlots) : Visit BlockOutcome := do
  let run := Visit.runLowering sine.decl (.kind (.map .sin)) ⟨⟨2⟩, "s", {}, [("out", some number)], time.model⟩ ⟨"s", "Sin", {}, {}⟩
  match ← Visit.boundInput analysis slots number {} wires with
  | .unbound => run {}
  | .bound v => run (Dict.insert {} "in" v)
  | .rejected => return .rejected

/-- The sine is lowered as it is written out here. -/
theorem lowerBlock_eq (slots : BusSlots) : Visit.lowerBlock analysis slots ⟨2⟩ = lowerSine slots := by
  have hblock : analysis.patch.block? ⟨2⟩ = some ⟨"s", "Sin", {}, {}⟩ := rfl
  have hentry : analysis.entry? ⟨2⟩ = some sine := Option.bind_eq_some_iff.2 ⟨_, hblock, block?_sine⟩
  have hwriters : analysis.patch.writers ⟨2⟩ "in" = wires := writers_eq
  have htype : analysis.types.inputType? ⟨2⟩ "in" = some number := by
    rw [TypeTable.inputType?, checks_eq.2.1]
    rfl
  have hinput : Visit.resolveInput analysis slots ⟨2⟩ (Registry.numberInput "in" .zero)
      = Visit.boundInput analysis slots number {} wires := by
    unfold Visit.resolveInput
    dsimp only [Registry.numberInput]
    rw [htype, hwriters]
    rfl
  rw [Visit.lowerBlock_of_input hblock hentry rfl checks_eq.2.1 rfl, hinput]
  rfl

/-- The sine is lowered last. -/
theorem lowerNodes_eq (slots : BusSlots) : Visit.lowerNodes analysis slots [3, 1, 0, 4, 2] = (do
    Visit.lowerNodes analysis slots [3, 1, 0, 4]
    let o ← lowerSine slots
    modify fun v => { v with outcomes := v.outcomes ++ [(⟨2⟩, o)] }) := by
  rw [← lowerBlock_eq]
  exact Visit.lowerNodes_concat rfl [3, 1, 0, 4]

/-- The patch is compiled without an error, and the bus has a slot. -/
theorem emission_eq : hasErrors (analysis.emission {} {}).diagnostics = false ∧ (analysis.emission {} {}).slots = [some ⟨0⟩] := by
  have horder : analysis.graph.evaluationOrder analysis.patch analysis.registry analysis.cycles = [3, 1, 0, 4, 2] := checks_eq.2.2.1
  unfold Analysis.emission Analysis.emitBlocks Analysis.lowerBlocks
  simp only [horder, lowerNodes_eq]
  decide +kernel

theorem clean : hasErrors (compile patch .builtin {}).diagnostics = false := by
  rw [(passes.compile_eq {}).2.1, analysis_eq, normalize_eq]
  exact emission_eq.1

theorem busSlots_eq :
    (Compilation.run { patch, registry := .builtin, options := {} } .link).state.artifacts.busSlots = some [some ⟨0⟩] := by
  rw [(passes.artifacts_eq {}).2.2, analysis_eq, normalize_eq, emission_eq.2]

/-- Both constants count, at the sine and at the bus. -/
theorem countP_eq : (normal.writers ⟨2⟩ "in").countP (·.delivers (Typing.table normal .builtin) number) = 2
    ∧ ((normal.publishers "k").countP fun x => ((Typing.table normal .builtin).writerType? x).any ValueType.isSlotted) = 2 := by
  rw [writers_eq]
  exact checks_eq.2.2.2

end TwoConstants

/-- Two constants are combined at the input of a sine, and on a bus. -/
theorem connections_kept_twoConstants :
    hasErrors (compile TwoConstants.patch .builtin {}).diagnostics = false
      ∧ (∃ l, (compile TwoConstants.patch .builtin {}).linked = some l
        ∧ ∃ x, l.input? ⟨2⟩ "in" = some x ∧ l.program.terms? x.value = some 2)
      ∧ ∃ buses, (Compilation.run { patch := TwoConstants.patch, registry := .builtin, options := {} } .link).state.artifacts.buses
        = some buses ∧ ∃ o, buses[0]? = some o ∧ o.effective = 2 := by
  obtain ⟨l, buses, slots, hl, hbuses, hslots, hinputs, hcounts⟩ := connections_kept TwoConstants.clean
  rw [TwoConstants.normalize_eq] at hinputs hcounts
  obtain rfl := Option.some.inj (hslots.symm.trans TwoConstants.busSlots_eq)
  have hparse : ValueType.parse? Registry.floatSignal = some TwoConstants.number := by decide +kernel
  have hsine := (hinputs ⟨2⟩ ⟨"s", "Sin", {}, {}⟩ TwoConstants.sine rfl TwoConstants.block?_sine rfl _ (List.mem_singleton_self _)
    TwoConstants.number hparse rfl).2
  obtain ⟨x, hx, hterms⟩ := hsine (Nat.le_of_eq TwoConstants.countP_eq.1.symm)
  obtain ⟨o, ho, heffective⟩ := hcounts ⟨0⟩ { id := "k", type := "Signal<float>" } ⟨0⟩ rfl rfl
  refine ⟨TwoConstants.clean, ⟨l, hl, x, hx, ?_⟩, buses, hbuses, o, ho, heffective.trans TwoConstants.countP_eq.2⟩
  exact hterms.trans (congrArg some TwoConstants.countP_eq.1)

end PatchGraph
