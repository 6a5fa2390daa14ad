import PatchGraph.Proofs.Compile.Breaches
import PatchGraph.Proofs.Compile.Policies
import PatchGraph.Proofs.Graph.Legality

/-!
# Policies are enforced once

The diagnostics about policies are those of the ports and buses of a patch, one for each input that cannot be kept to its policy. So
they can be counted: the number at a port or bus follows from the types, the modes and the writers alone (`policies_enforced_once`). A
block with an input that was reported is rejected, and a rejected block leaves no trace in the program.
-/

namespace PatchGraph

variable {a : Analysis}

/-! ## Counting -/

/-- A mode that is not allowed, and several writers that cannot be combined, are reported. -/
theorem exists_policyProblem {t : ValueType} {p : CombinePolicy} {ws : List Writer}
    (h : t.allows p.mode = false ∨ p.mode = .error ∧ 1 < ws.length) (locator : Locator) : ∃ d, policyProblem? t p ws locator = some d := by
  refine Option.ne_none_iff_exists'.1 fun hnone => ?_
  obtain ⟨hallows, hsingle⟩ := ValueType.complaint?_eq_none.1 (policyProblem?_eq_none_iff.1 hnone)
  exact hsingle (h.resolve_left (by simp [hallows]))

/-- Whether a diagnostic has a code and is about something. -/
def Diagnostic.isAbout (code : DiagCode) (locator : Locator) (d : Diagnostic) : Bool := d.code = some code ∧ d.locator = locator

/-- Whether a problem is about a code and a place can be told from the complaint. -/
theorem any_isAbout {o : Option Diagnostic} {t : ValueType} {mode : CombineMode} {writers : Nat} {locator : Locator}
    (hnone : o = none ↔ t.complaint? mode writers = none) (hsome : ∀ {d}, o = some d → Complaint t mode writers locator d)
    (other : Locator) (code : DiagCode) :
    o.any (·.isAbout code other) = decide (t.complaint? mode writers = some code ∧ locator = other) := by
  cases o with
  | none => simp [hnone.1 rfl]
  | some d =>
    obtain ⟨-, hlocator, hcode⟩ := hsome rfl
    rcases hcode with ⟨hcomplaint, hcode⟩ | ⟨hcomplaint, hcode⟩ <;>
      rw [Option.any_some, Diagnostic.isAbout, hlocator, hcode, hcomplaint]

/-- Whether the problem of a port is about a code and a place can be told from type, mode and writers. -/
theorem any_policyProblem (t : ValueType) (p : CombinePolicy) (ws : List Writer) (locator other : Locator) (code : DiagCode) :
    (policyProblem? t p ws locator).any (·.isAbout code other) = decide (t.complaint? p.mode ws.length = some code ∧ locator = other) :=
  any_isAbout policyProblem?_eq_none_iff complaint_of_policyProblem other code

/-- Whether the problem of a bus is about a code and a place can be told from type, mode and publishers. -/
theorem BusValue.any_policyProblem (b : Bus) (t : ValueType) (ws : List Writer) (other : Locator) (code : DiagCode) :
    (policyProblem? b t ws).any (·.isAbout code other)
      = decide (t.complaint? b.combine ws.length = some code ∧ Locator.bus b.id = other) :=
  any_isAbout policyProblem?_eq_none_iff complaint_of_policyProblem other code

/-- What is counted in lists that are joined is counted in one of them if it is in no other. -/
theorem countP_flatMap_of_nodup {α β : Type} {xs : List α} {x : α} {f : α → List β} {q : β → Bool} (hnodup : xs.Nodup) (hx : x ∈ xs)
    (hother : ∀ y ∈ xs, y ≠ x → (f y).countP q = 0) : (xs.flatMap f).countP q = (f x).countP q := by
  obtain ⟨before, after, rfl⟩ := List.append_of_mem hx
  have hzero : ∀ ys : List α, (∀ y ∈ ys, (f y).countP q = 0) → (ys.flatMap f).countP q = 0 := by
    intro ys hys
    refine List.countP_eq_zero.2 fun z hz => ?_
    obtain ⟨y, hy, hz⟩ := List.mem_flatMap.1 hz
    exact List.countP_eq_zero.1 (hys y hy) z hz
  obtain ⟨-, hafter, hdisjoint⟩ := List.nodup_append.1 hnodup
  have hx' : x ∉ after := (List.nodup_cons.1 hafter).1
  rw [List.flatMap_append, List.flatMap_cons, List.countP_append, List.countP_append,
    hzero before fun y hy => hother y (List.mem_append_left _ hy) (hdisjoint y hy x List.mem_cons_self),
    hzero after fun y hy => hother y (List.mem_append_right _ (List.mem_cons_of_mem _ hy)) (fun h => hx' (h ▸ hy)),
    Nat.zero_add, Nat.add_zero]

namespace Normalized

variable {n : Normalized}

/-- No place is given twice. -/
theorem nodup_placedBlocks (n : Normalized) : (n.placedBlocks.map (·.1)).Nodup := by
  have hindex : (n.placedBlocks.map (·.1)).map (·.index) = List.range n.blocks.length := by
    simp [placedBlocks, List.zipIdx_map_snd, Function.comp_def, List.range_eq_range']
  exact List.Nodup.of_map (·.index) (hindex ▸ List.nodup_range)

/-- The places of blocks are the numbers below their count. -/
theorem mem_map_placedBlocks {ix : BlockIx} : ix ∈ n.placedBlocks.map (·.1) ↔ ix.index < n.blocks.length := by
  constructor
  · intro h
    obtain ⟨⟨ix, b⟩, hb, rfl⟩ := List.mem_map.1 h
    exact lt_of_mem_placedBlocks hb
  · intro h
    exact List.mem_map.2 ⟨(ix, n.blocks[ix.index]), mem_placedBlocks.2 (List.getElem?_eq_getElem h), rfl⟩

/-- Blocks with the same id are at the same place. -/
theorem Distinct.eq_of_id (hn : n.Distinct) {ix ix' : BlockIx} {b b' : Block} (hb : n.block? ix = some b) (hb' : n.block? ix' = some b')
    (hid : b.id = b'.id) : ix = ix' := by
  have hsame : n.blockIx? (n.blockId ix) = n.blockIx? (n.blockId ix') := by rw [blockId_of_block? hb, blockId_of_block? hb', hid]
  rw [hn.blockIx?_blockId (List.getElem?_eq_some_iff.1 hb).1, hn.blockIx?_blockId (List.getElem?_eq_some_iff.1 hb').1] at hsame
  exact Option.some.inj hsame

theorem nodup_placedBuses (n : Normalized) : n.placedBuses.Nodup := by
  have hindex : n.placedBuses.map (·.1.index) = List.range n.buses.length := by
    simp [placedBuses, List.zipIdx_map_snd, Function.comp_def, List.range_eq_range']
  exact List.Nodup.of_map (·.1.index) (hindex ▸ List.nodup_range)

end Normalized

namespace Analysis

/-- Nothing is wrong with policies but what has one of their codes. -/
theorem countP_diagnostics {consts : Pool} {options : Options}
    (hperm : ((a.emission consts options).diagnostics.filter Diagnostic.isPolicy).Perm a.policyProblems) {code : DiagCode}
    (hcode : code = .combineNotAllowed ∨ code = .severalWriters) (locator : Locator) :
    (a.emission consts options).diagnostics.countP (·.isAbout code locator) = a.policyProblems.countP (·.isAbout code locator) := by
  rw [← hperm.countP_eq, List.countP_filter]
  refine List.countP_congr fun d _ => ?_
  simp only [Diagnostic.isAbout, Diagnostic.isPolicy, Bool.and_eq_true, Bool.or_eq_true, decide_eq_true_eq]
  rcases hcode with rfl | rfl
  · exact ⟨fun h => ⟨h, .inl h.1⟩, fun h => h.1⟩
  · exact ⟨fun h => ⟨h, .inr h.1⟩, fun h => h.1⟩

variable (hn : a.patch.Distinct)

include hn

/-- The inputs of a block are complained about one by one. -/
theorem countP_input {ix : BlockIx} {decl : BlockDecl} (hdecl : a.patch.decl? a.registry ix = some decl) {port : String}
    {t : ValueType} (ht : a.types.inputType? ix port = some t) (code : DiagCode) :
    a.policyProblems.countP (·.isAbout code (.port (a.patch.blockId ix) port))
      = decl.inputs.countP fun i =>
        i.id = port ∧ t.complaint? (i.combine.getD {}).mode (a.patch.writers ix port).length = some code := by
  have hlt : ∀ {x : BlockIx}, x ∈ a.patch.placedBlocks.map (·.1) → x.index < a.patch.blocks.length :=
    fun h => Normalized.mem_map_placedBlocks.1 h
  have hix : ix.index < a.patch.blocks.length := by
    obtain ⟨b, hb, -⟩ := Option.bind_eq_some_iff.1 hdecl
    exact (List.getElem?_eq_some_iff.1 hb).1
  have hbuses : (a.patch.placedBuses.filterMap a.busProblem?).countP (·.isAbout code (.port (a.patch.blockId ix) port)) = 0 := by
    refine List.countP_eq_zero.2 fun d hd habout => ?_
    obtain ⟨x, -, hproblem⟩ := List.mem_filterMap.1 hd
    cases (of_busProblem? hproblem).2.symm.trans (of_decide_eq_true habout).2
  have hothers : ∀ y ∈ a.patch.placedBlocks.map (·.1), y ≠ ix →
      (a.inputProblems y).countP (·.isAbout code (.port (a.patch.blockId ix) port)) = 0 := by
    refine fun y hy hne => List.countP_eq_zero.2 fun d hd habout => hne ?_
    obtain ⟨-, other, hlocator⟩ := of_mem_inputProblems hd
    have hid := (Locator.port.inj (hlocator.symm.trans (of_decide_eq_true habout).2)).1
    have hsame := hn.blockIx?_blockId (hlt hy)
    rw [hid, hn.blockIx?_blockId hix] at hsame
    exact (Option.some.inj hsame).symm
  rw [policyProblems, List.countP_append, hbuses, Nat.add_zero,
    countP_flatMap_of_nodup (Normalized.nodup_placedBlocks _) (Normalized.mem_map_placedBlocks.2 hix) hothers, inputProblems, hdecl,
    Option.map_some, Option.getD_some, List.countP_filterMap]
  refine List.countP_congr fun i _ => ?_
  have hany : ((a.inputProblem? ix i).map (·.isAbout code (.port (a.patch.blockId ix) port))).getD false
      = (a.inputProblem? ix i).any (·.isAbout code (.port (a.patch.blockId ix) port)) := by
    cases a.inputProblem? ix i <;> rfl
  rw [hany, decide_eq_true_eq]
  by_cases hid : i.id = port
  · rw [inputProblem?, hid, ht, Option.bind_some, any_policyProblem]
    simp
  · have hnone : (a.inputProblem? ix i).any (·.isAbout code (.port (a.patch.blockId ix) port)) = false := by
      rw [inputProblem?]
      cases a.types.inputType? ix i.id with
      | none => rfl
      | some u =>
        rw [Option.bind_some, any_policyProblem]
        simp [hid]
    simp [hnone, hid]

/-- A bus is complained about once. -/
theorem countP_bus {ix : BusIx} {b : Bus} (hb : a.patch.bus? ix = some b) {t : ValueType} (ht : a.types.busType? ix = some t)
    (code : DiagCode) :
    a.policyProblems.countP (·.isAbout code (.bus b.id))
      = if t.complaint? b.combine (a.patch.publishers b.id).length = some code then 1 else 0 := by
  have hblocks : ((a.patch.placedBlocks.map (·.1)).flatMap a.inputProblems).countP (·.isAbout code (.bus b.id)) = 0 := by
    refine List.countP_eq_zero.2 fun d hd habout => ?_
    obtain ⟨ix, -, hd⟩ := List.mem_flatMap.1 hd
    obtain ⟨-, port, hlocator⟩ := of_mem_inputProblems hd
    cases hlocator.symm.trans (of_decide_eq_true habout).2
  have hothers : ∀ y ∈ a.patch.placedBuses, y ≠ (ix, b) → (a.busProblem? y).toList.countP (·.isAbout code (.bus b.id)) = 0 := by
    refine fun y hy hne => List.countP_eq_zero.2 fun d hd habout => hne ?_
    have hid := Locator.bus.inj ((of_busProblem? (Option.mem_toList.1 hd)).2.symm.trans (of_decide_eq_true habout).2)
    have hplace := Normalized.bus?_of_mem_placedBuses hy
    have hsame := hn.busIx?_id hplace
    rw [hid, hn.busIx?_id hb] at hsame
    obtain rfl := Option.some.inj hsame
    exact Prod.ext rfl (Option.some.inj (hplace.symm.trans hb))
  have hmem : (ix, b) ∈ a.patch.placedBuses :=
    List.mem_map.2 ⟨(b, ix.index), List.mem_zipIdx_iff_getElem?.2 hb, rfl⟩
  rw [policyProblems, List.countP_append, hblocks, Nat.zero_add, List.filterMap_eq_flatMap_toList,
    countP_flatMap_of_nodup (Normalized.nodup_placedBuses _) hmem hothers, busProblem?, ht, Option.bind_some]
  have hany := BusValue.any_policyProblem b t (a.patch.publishers b.id) (.bus b.id) code
  cases hproblem : BusValue.policyProblem? b t (a.patch.publishers b.id) with
  | none =>
    rw [hproblem] at hany
    simpa using hany
  | some d =>
    rw [hproblem] at hany
    simp only [Option.any_some, and_true] at hany
    simp [hany]

end Analysis

/-! ## Rejected blocks -/

/-- The tables of a linked program say nothing of a rejected block. -/
theorem Analysis.tables_of_rejected {consts : Pool} {options : Options} {ix : BlockIx}
    (h : (a.emission consts options).lowered.outcome ix = .rejected) :
    (∀ x ∈ (a.emission consts options).linked.inputs, x.block ≠ ix) ∧ ∀ x ∈ (a.emission consts options).linked.outputs, x.block ≠ ix := by
  let e := a.emission consts options
  have h : e.lowered.outcome ix = .rejected := h
  refine ⟨fun x hx hix => ?_, fun x hx hix => ?_⟩
  · let w := ((Linking.bindForwards a e.lowered e.lowered.forwards).run { builder := e.afterBuses.builder }).2
    obtain ⟨values, hmem, hvalue⟩ := Linking.exists_of_mem_inputTable hx
    have hinputs := (Linking.allInputs_attempted a e.slots e.lowered (a.patch.placedBlocks.map (·.1)) w).2 _ hmem
    rw [hix, h] at hinputs
    rw [show values = {} from hinputs rfl] at hvalue
    cases hvalue
  · obtain ⟨values, houtputs, -⟩ := Linking.exists_of_mem_outputTable hx
    have houtputs : (e.lowered.outcome x.block).outputs? = some values := houtputs
    rw [hix, h] at houtputs
    cases houtputs

/-! ## Compilations -/

namespace Normalized.Passes

variable {n : Normalized} {r : Registry} {time : Time} (h : n.Passes r time)

include h

/-- The inputs of a patch that passes its checks have types. -/
theorem exists_inputType {ix : BlockIx} {b : Block} {d : BlockDecl} (hb : n.block? ix = some b) (hd : r.decl? b.type = some d)
    {input : InputDecl} (hinput : input ∈ d.inputs) : ∃ t, (Typing.table n r).inputType? ix input.id = some t := by
  have hblocks := (List.append_eq_nil_iff.1 (List.append_eq_nil_iff.1 h.types).1).1
  obtain ⟨d', hd', htypes⟩ := Typing.ports_of_silent (List.flatMap_eq_nil_iff.1 hblocks b (List.mem_of_getElem? hb))
  obtain rfl := Option.some.inj (hd.symm.trans hd')
  have hdecl : n.decl? r ix = some d := by rw [decl?, hb, Option.bind_some, hd]
  rw [TypeTable.inputType?, Typing.ports?_table, hdecl, Option.map_some, Option.bind_some]
  exact Option.isSome_iff_exists.1 (isSome_portType? ⟨_, List.mem_map_of_mem hinput, rfl⟩ (htypes .input))

/-- The buses of a patch that passes its checks have types. -/
theorem exists_busType {ix : BusIx} {b : Bus} (hb : n.bus? ix = some b) :
    ∃ t, ValueType.parse? b.type = some t ∧ (Typing.table n r).busType? ix = some t := by
  have hbuses := (List.append_eq_nil_iff.1 (List.append_eq_nil_iff.1 h.types).1).2
  have hsilent := List.flatMap_eq_nil_iff.1 hbuses b (List.mem_of_getElem? hb)
  obtain ⟨t, ht⟩ := Option.isSome_iff_exists.1 (Typing.isSome_parse?_of_busDiagnostics hsilent)
  have hget : n.buses[ix.index]? = some b := hb
  refine ⟨t, ht, ?_⟩
  rw [TypeTable.busType?, Typing.table, List.getElem?_map, hget, Option.map_some, Option.join_some, ht]

end Normalized.Passes

namespace Patch

variable {p : Patch} {r : Registry} {time : Time} {options : Options}

/-- A block that is attempted is rejected if something is wrong with the policies of its inputs. -/
theorem outcome_lowered {ix : BlockIx} (hix : ix.index < (p.normalize r).1.blocks.length) :
    let a := p.analysis r time
    let o := (a.emission (p.normalize r).2 options).lowered.outcome ix
    o.attempted = a.attempts ix ∧ (a.attempts ix = true → a.inputProblems ix ≠ [] → o = .rejected) :=
  Analysis.outcome_emission (Q := fun ix o => o.attempted = (p.analysis r time).attempts ix
    ∧ ((p.analysis r time).attempts ix = true → (p.analysis r time).inputProblems ix ≠ [] → o = .rejected))
    (Visit.returns_lowerBlock _) hix (Patch.exists_order ix hix)

/-- Each block has its place in the order, and only one. -/
theorem perm_blocksOf_order :
    ((p.analysis r time).graph.blocksOf (p.analysis r time).order).Perm ((p.normalize r).1.placedBlocks.map (·.1)) := by
  let n := (p.normalize r).1
  have hnodup := DependencyGraph.nodup_evaluationOrder (n := n) (r := r) (n.closed_dependencies r)
  have hindices := Normalized.map_index_blocksOf (n := n) (r := r) (p.analysis r time).order
  refine (List.perm_ext_iff_of_nodup (List.Nodup.of_map (·.index) (hindices ▸ hnodup.filter _)) n.nodup_placedBlocks).2 fun ix => ?_
  refine Normalized.mem_blocksOf.trans (Iff.trans ?_ Normalized.mem_map_placedBlocks.symm)
  exact ⟨fun h => h.2, fun h => ⟨Normalized.mem_order (Nat.lt_of_lt_of_le h (Nat.le_add_right _ _)), h⟩⟩

/-- What is said of policies is what is wrong with them, each once. -/
theorem perm_policies :
    (((p.analysis r time).emission (p.normalize r).2 options).diagnostics.filter Diagnostic.isPolicy).Perm
      (p.analysis r time).policyProblems :=
  Analysis.perm_policies (fun _ hix => (outcome_lowered (Normalized.mem_map_placedBlocks.1 hix)).1) perm_blocksOf_order

end Patch

/-- A block with a lowering and an input that cannot be kept to its policy is rejected. -/
theorem Patch.outcome_of_problem {p : Patch} {r : Registry} (time : Time) (options : Options) {ix : BlockIx} {block : Block}
    {entry : BlockEntry} (hb : (p.normalize r).1.block? ix = some block) (he : r.block? block.type = some entry)
    (hlowering : entry.lowering.isSome = true) {input : InputDecl} (hinput : input ∈ entry.decl.inputs) {t : ValueType}
    (ht : (Typing.table (p.normalize r).1 r).inputType? ix input.id = some t)
    (hproblem : t.allows (input.combine.getD {}).mode = false
      ∨ (input.combine.getD {}).mode = .error ∧ 1 < ((p.normalize r).1.writers ix input.id).length) :
    let a := p.analysis r time
    a.attempts ix = true ∧ a.inputProblems ix ≠ [] ∧ (a.emission (p.normalize r).2 options).lowered.outcome ix = .rejected := by
  intro a
  have hentry : a.entry? ix = some entry := by
    unfold Analysis.entry?
    exact (congrArg (Option.bind · _) hb).trans he
  have hdecl : a.patch.decl? a.registry ix = some entry.decl := Visit.decl?_of_entry hentry
  have hattempts : a.attempts ix = true := by
    have hports : a.types.ports? ix = some (Typing.portTypes entry.decl) := by
      rw [show a.types = Typing.table a.patch a.registry from rfl, Typing.ports?_table, hdecl, Option.map_some]
    rw [Analysis.attempts, hports, Analysis.lowering?, hentry, Option.bind_some, hlowering]
    rfl
  obtain ⟨d, hd⟩ := exists_policyProblem hproblem (.port (a.patch.blockId ix) input.id)
  have hproblems : a.inputProblems ix ≠ [] := by
    rw [Visit.inputProblems_of_entry hentry]
    refine List.ne_nil_of_mem (List.mem_filterMap.2 ⟨input, hinput, Eq.trans ?_ hd⟩)
    rw [Analysis.inputProblem?, show a.types.inputType? ix input.id = some t from ht, Option.bind_some]
    rfl
  exact ⟨hattempts, hproblems, (outcome_lowered (List.getElem?_eq_some_iff.1 hb).1).2 hattempts hproblems⟩

/-- A rejected block has no step. -/
theorem Patch.no_step_of_rejected {p : Patch} {r : Registry} (hr : r.Standard) {time : Time} {options : Options} {ix : BlockIx}
    (h : ((p.analysis r time).emission (p.normalize r).2 options).lowered.outcome ix = .rejected) :
    .block ix ∉ ((p.analysis r time).emission (p.normalize r).2 options).linked.program.schedule := by
  intro hmem
  rw [Regime.schedule_emission (a := p.analysis r time) hr (List.length_map _) (p.normalize r).2 options] at hmem
  have horder := (p.analysis r time).order_emission (p.normalize r).2 options
  obtain ⟨inputs, outputs, hlowered⟩ := (Emission.block_mem_steps (fun u hu => Normalized.mem_order_emission horder hu)
    (Emission.length_outcomes _ _ _)).1 hmem
  have hsome := Lowered.outputs?_isSome_iff.2 ⟨inputs, outputs, hlowered⟩
  rw [h] at hsome
  cases hsome

/-- Whatever else is found in a patch whose program is linked: each declared input whose mode its port does not allow is reported once for
the mode, each whose mode `error` meets several writers is reported once for the writers, no other is reported for either, and the same
holds of buses and their publishers. A type may declare inputs of one name; they share a port, where each of them is reported. A block
that has a lowering and an input that was reported has no values, no step, and no failure of its own. -/
theorem policies_enforced_once {p : Patch} {r : Registry} {options : Options} (hr : r.Loaded) {l : Linked}
    (hl : (compile p r options).linked = some l) :
    let n := (p.normalize r).1
    let said := fun code locator => (compile p r options).diagnostics.countP fun d => d.code = some code ∧ d.locator = locator
    (∀ ix block decl, n.block? ix = some block → r.decl? block.type = some decl → ∀ input ∈ decl.inputs,
      ∃ t, (Typing.table n r).inputType? ix input.id = some t ∧
        (said .combineNotAllowed (.port block.id input.id)
          = decl.inputs.countP fun i => i.id = input.id ∧ t.allows (i.combine.getD {}).mode = false) ∧
        said .severalWriters (.port block.id input.id)
          = decl.inputs.countP fun i => i.id = input.id ∧ t.allows (i.combine.getD {}).mode = true
            ∧ (i.combine.getD {}).mode = .error ∧ 1 < (n.writers ix input.id).length) ∧
    (∀ ix bus, n.bus? ix = some bus → ∃ t, ValueType.parse? bus.type = some t ∧
        (said .combineNotAllowed (.bus bus.id) = if t.allows bus.combine = false then 1 else 0) ∧
        said .severalWriters (.bus bus.id)
          = if t.allows bus.combine = true ∧ bus.combine = .error ∧ 1 < (n.publishers bus.id).length then 1 else 0) ∧
    ∀ ix block entry, n.block? ix = some block → r.block? block.type = some entry → entry.lowering.isSome = true →
      (∃ input ∈ entry.decl.inputs, ∃ t, (Typing.table n r).inputType? ix input.id = some t
        ∧ (t.allows (input.combine.getD {}).mode = false
          ∨ (input.combine.getD {}).mode = .error ∧ 1 < (n.writers ix input.id).length)) →
      (∀ x ∈ l.inputs, x.block ≠ ix) ∧ (∀ x ∈ l.outputs, x.block ≠ ix) ∧ .block ix ∉ l.program.schedule
        ∧ ∀ d ∈ (compile p r options).diagnostics, d.code = some .blockFailed → d.locator ≠ .block block.id := by
  obtain ⟨time, hpasses, hprogram⟩ := passes_of_linked hl
  have hdiagnostics := hpasses.diagnostics_eq options
  have hn := p.distinct_normalize r
  intro n said
  have hsaid : ∀ code, code = .combineNotAllowed ∨ code = .severalWriters → ∀ locator,
      said code locator = (p.analysis r time).policyProblems.countP (·.isAbout code locator) := by
    intro code hcode locator
    show (compile p r options).diagnostics.countP _ = _
    rw [hdiagnostics]
    exact Analysis.countP_diagnostics Patch.perm_policies hcode locator
  refine ⟨fun ix block decl hb hd input hinput => ?_, fun ix bus hb => ?_, fun ix block entry hb he hlowering hrejected => ?_⟩
  · obtain ⟨t, ht⟩ := hpasses.exists_inputType hb hd hinput
    have hid : block.id = n.blockId ix := (Normalized.blockId_of_block? hb).symm
    have hdecl : n.decl? r ix = some decl := by rw [Normalized.decl?, hb, Option.bind_some, hd]
    refine ⟨t, ht, ?_, ?_⟩
    · rw [hsaid _ (.inl rfl), hid]
      refine (Analysis.countP_input (a := p.analysis r time) hn hdecl ht _).trans (List.countP_congr fun i _ => ?_)
      simp only [ValueType.complaint?_eq_mode]
    · rw [hsaid _ (.inr rfl), hid]
      refine (Analysis.countP_input (a := p.analysis r time) hn hdecl ht _).trans (List.countP_congr fun i _ => ?_)
      simp only [ValueType.complaint?_eq_writers]
      rfl
  · obtain ⟨t, hparse, ht⟩ := hpasses.exists_busType hb
    refine ⟨t, hparse, ?_, ?_⟩
    · rw [hsaid _ (.inl rfl)]
      refine (Analysis.countP_bus (a := p.analysis r time) hn hb ht _).trans ?_
      simp only [ValueType.complaint?_eq_mode]
    · rw [hsaid _ (.inr rfl)]
      refine (Analysis.countP_bus (a := p.analysis r time) hn hb ht _).trans ?_
      simp only [ValueType.complaint?_eq_writers]
      rfl
  · obtain ⟨input, hinput, t, ht, hproblem⟩ := hrejected
    obtain ⟨hattempts, hproblems, houtcome⟩ := Patch.outcome_of_problem time options hb he hlowering hinput ht hproblem
    obtain ⟨hinputs, houtputs⟩ := Analysis.tables_of_rejected houtcome
    rw [hprogram]
    refine ⟨hinputs, houtputs, Patch.no_step_of_rejected hr.standard houtcome, fun d hd hcode hlocator => ?_⟩
    rw [hdiagnostics] at hd
    obtain ⟨ix', block', hb', hat, hnone⟩ := Analysis.failsDuly_emission hd hcode
    obtain rfl := hn.eq_of_id hb hb' (Locator.block.inj (hlocator.symm.trans hat))
    exact hproblems (hnone hattempts)

/-- The camera and the sink, next to a bus of events. Both would take the largest of what they get, which neither can. -/
def cameraRigBus : Patch := { cameraRigPatch with buses := [{ id := "k", type := "Event<trigger>", combine := .max }] }

/-- The sink and the bus are reported once each for their modes, and the sink is not in the program. -/
theorem policies_enforced_once_cameraRigBus :
    (cameraRigRegistry .max).Loaded ∧
      let result := compile cameraRigBus (cameraRigRegistry .max) {}
      ∃ l, result.linked = some l ∧
        (result.diagnostics.countP fun d => d.code = some .combineNotAllowed ∧ d.locator = .port "r" "in") = 1 ∧
        (result.diagnostics.countP fun d => d.code = some .combineNotAllowed ∧ d.locator = .bus "k") = 1 ∧
        (∀ x ∈ l.inputs, x.block ≠ ⟨1⟩) ∧ (∀ x ∈ l.outputs, x.block ≠ ⟨1⟩) ∧ .block ⟨1⟩ ∉ l.program.schedule ∧
        ∀ d ∈ result.diagnostics, d.code = some .blockFailed → d.locator ≠ .block "r" := by
  let r := cameraRigRegistry .max
  let rig : InputDecl := { id := "in", type := "Event<camera>", combine := some ⟨.always, .max⟩ }
  let decl : BlockDecl := { type := "Rig", inputs := [rig], lowering := some "renderSink" }
  have hfacts : (Registry.builtin.declareAll "m" (cameraRig .max).declarations).2 = none
      ∧ (compile cameraRigBus r {}).linked.isSome = true
      ∧ (cameraRigBus.normalize r).1.block? ⟨1⟩ = some ⟨"r", "Rig", {}, {}⟩
      ∧ (cameraRigBus.normalize r).1.bus? ⟨0⟩ = some { id := "k", type := "Event<trigger>", combine := .max }
      ∧ (r.block? "Rig").any (fun entry => entry.decl = decl ∧ entry.lowering.isSome)
      ∧ (Typing.table (cameraRigBus.normalize r).1 r).inputType? ⟨1⟩ "in" = some { world := .event, domain := .camera }
      ∧ ValueType.parse? "Event<trigger>" = some { world := .event, domain := .trigger } := by
    decide +kernel
  obtain ⟨hdeclared, hlinked, hblock, hbus, hentry, htype, htrigger⟩ := hfacts
  have hloaded : r.Loaded := loaded_cameraRig hdeclared
  obtain ⟨l, hl⟩ := Option.isSome_iff_exists.1 hlinked
  obtain ⟨entry, hentry, hdecl⟩ := (Option.any_eq_true _ _).1 hentry
  obtain ⟨hdecl, hlowering⟩ := of_decide_eq_true hdecl
  obtain ⟨hinputs, hbuses, hrejected⟩ := policies_enforced_once hloaded hl
  obtain ⟨t, ht, hport, -⟩ := hinputs ⟨1⟩ _ decl hblock (by rw [Registry.decl?, hentry, Option.map_some, hdecl]) rig
    (List.mem_singleton_self rig)
  obtain rfl := Option.some.inj (htype.symm.trans ht)
  obtain ⟨u, hu, hmode, -⟩ := hbuses ⟨0⟩ _ hbus
  obtain rfl := Option.some.inj (htrigger.symm.trans hu)
  refine ⟨hloaded, l, hl, hport.trans (by decide), hmode.trans (by decide), ?_⟩
  exact hrejected ⟨1⟩ _ entry hblock hentry hlowering ⟨rig, hdecl ▸ List.mem_singleton_self rig, _, htype, .inl (by decide)⟩

end PatchGraph
