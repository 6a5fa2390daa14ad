import PatchGraph.Proofs.Compile.Schedule

/-!
# The steps of a schedule

Every node of the dependency graph is taken once in the order of evaluation, so each block that was lowered and each bus that has a value
has exactly one step, also in a program with errors. Whatever else a cycle does to the order, a link that leaves its component and a link
that leads to a bus are always followed (`schedule_steps_exact`).
-/

namespace PatchGraph

/-! ## What has a step -/

/-- A bus is lowered to one outcome, in its place. -/
theorem BusValue.length_lowerAll {a : Analysis} {slots : BusSlots} {l : Lowered} (buses : List (BusIx × Bus)) (w : Workbench) :
    ((lowerAll a slots l buses).run w).1.length = buses.length := by
  induction buses generalizing w with
  | nil => rfl
  | cons x rest ih => exact congrArg (· + 1) (ih ((lower a slots l x.1 x.2).run w).2)

theorem Emission.length_outcomes (a : Analysis) (consts : Pool) (options : Options) :
    (a.emission consts options).lowered.outcomes.length = a.patch.blocks.length :=
  (List.length_map _).trans List.length_range

theorem Emission.length_buses (a : Analysis) (consts : Pool) (options : Options) :
    (a.emission consts options).buses.length = a.patch.buses.length :=
  (BusValue.length_lowerAll _ _).trans ((List.length_map _).trans List.length_zipIdx)

namespace Linking

variable {a : Analysis} {l : Lowered} {buses : List BusOutcome}

/-- The node of a block has a step if the block was lowered. -/
theorem step?_block {b : BlockIx} (hb : b.index < a.graph.blockCount) :
    step? a l buses b.index = if (l.outcome b).outputs?.isSome then some (.block b) else none := by
  simp only [step?, DependencyGraph.node, hb, if_true]

/-- The node of a bus has a step if the bus has a value. -/
theorem step?_bus (b : BusIx) :
    step? a l buses (a.graph.blockCount + b.index) = if (buses[b.index]?).any (·.value.isSome) then some (.bus b) else none := by
  have hnot : ¬a.graph.blockCount + b.index < a.graph.blockCount := by omega
  simp only [step?, DependencyGraph.node, hnot, if_false, Nat.add_sub_cancel_left]

end Linking

/-- A block that was lowered has outputs. -/
theorem Lowered.outputs?_isSome_iff {l : Lowered} {b : BlockIx} :
    (l.outcome b).outputs?.isSome = true ↔ ∃ inputs outputs, l.outcomes[b.index]? = some (.lowered inputs outputs) := by
  unfold outcome
  constructor
  · intro h
    cases ho : l.outcomes[b.index]? with
    | none => rw [ho] at h; cases h
    | some o =>
      rw [ho] at h
      cases o with
      | lowered inputs outputs => exact ⟨inputs, outputs, rfl⟩
      | _ => cases h
  · rintro ⟨inputs, outputs, ho⟩
    rw [ho]
    rfl

namespace Emission

variable {e : Emission} {a : Analysis} (horder : ∀ u < a.graph.size, u ∈ e.lowered.order)

include horder

/-- A block has a step exactly if it was lowered. -/
theorem block_mem_steps (hlength : e.lowered.outcomes.length = a.graph.blockCount) {b : BlockIx} :
    .block b ∈ e.steps a ↔ ∃ inputs outputs, e.lowered.outcomes[b.index]? = some (.lowered inputs outputs) := by
  rw [← Lowered.outputs?_isSome_iff]
  constructor
  · intro h
    obtain ⟨u, -, hu⟩ := List.mem_filterMap.1 h
    rcases Linking.step?_eq_some hu with ⟨b', -, heq, hsome⟩ | ⟨b', -, heq, -⟩
    · obtain rfl := ScheduleStep.block.inj heq
      exact hsome
    · cases heq
  · intro h
    obtain ⟨inputs, outputs, ho⟩ := Lowered.outputs?_isSome_iff.1 h
    have hb : b.index < a.graph.blockCount := hlength ▸ (List.getElem?_eq_some_iff.1 ho).1
    refine List.mem_filterMap.2 ⟨b.index, horder _ (Nat.lt_add_right _ hb), ?_⟩
    rw [Linking.step?_block hb, if_pos h]

/-- A bus has a step exactly if it has a value. -/
theorem bus_mem_steps (hlength : e.buses.length = a.graph.busCount) {b : BusIx} :
    .bus b ∈ e.steps a ↔ ∃ o, e.buses[b.index]? = some o ∧ o.value.isSome = true := by
  have hiff : (e.buses[b.index]?).any (·.value.isSome) = true ↔ ∃ o, e.buses[b.index]? = some o ∧ o.value.isSome = true := by
    cases e.buses[b.index]? <;> simp
  rw [← hiff]
  constructor
  · intro h
    obtain ⟨u, -, hu⟩ := List.mem_filterMap.1 h
    rcases Linking.step?_eq_some hu with ⟨b', -, heq, -⟩ | ⟨b', -, heq, hsome⟩
    · cases heq
    · obtain rfl := ScheduleStep.bus.inj heq
      exact hsome
  · intro h
    obtain ⟨o, ho, -⟩ := hiff.1 h
    have hb : b.index < a.graph.busCount := hlength ▸ (List.getElem?_eq_some_iff.1 ho).1
    refine List.mem_filterMap.2 ⟨a.graph.blockCount + b.index, horder _ (Nat.add_lt_add_left hb _), ?_⟩
    rw [Linking.step?_bus, if_pos h]

end Emission

namespace Normalized

variable {n : Normalized} {r : Registry} {a : Analysis} {e : Emission} (hgraph : a.graph = n.dependencies r)
  (horder : e.lowered.order = (n.dependencies r).evaluationOrder n r ((n.dependencies r).condense n r))

include horder

/-- No node has two steps. -/
theorem nodup_steps : (e.steps a).Nodup := by
  have hnodup := DependencyGraph.nodup_evaluationOrder (n := n) (r := r) (n.closed_dependencies r)
  rw [← horder] at hnodup
  refine List.Pairwise.filterMap _ ?_ hnodup
  rintro u v hne s hs t ht rfl
  exact hne (DependencyGraph.step_injective ((Linking.eq_step_of_step? hs).symm.trans (Linking.eq_step_of_step? ht)))

/-- Every node is taken. -/
theorem mem_order_emission {u : Nat} (hu : u < (n.dependencies r).size) : u ∈ e.lowered.order := by
  rw [horder]
  exact mem_order hu

include hgraph

/-- The step of the source of a link comes first, if the link leads to another component or to a bus. -/
theorem lt_of_firm {k : Link} (hk : k ∈ (n.dependencies r).links)
    (hfirm : ((n.dependencies r).condense n r).placeOf k.source ≠ ((n.dependencies r).condense n r).placeOf k.target
      ∨ k.kind = .publish)
    {i j : Nat} (hi : (e.steps a)[i]? = some ((n.dependencies r).step k.source))
    (hj : (e.steps a)[j]? = some ((n.dependencies r).step k.target)) : i < j := by
  have hne : k.source ≠ k.target := by
    intro hself
    have hkind := hfirm.resolve_left fun hne => hne (congrArg _ hself)
    obtain ⟨-, -, hsource, htarget⟩ := link_ends hk
    rw [← hself] at htarget
    exact htarget.1 (hsource.2 (by rw [hkind]; nofun)) hkind
  have hpairwise := pairwise_firm (n := n) (r := r)
  rw [← horder] at hpairwise
  rw [← hgraph] at hi hj
  exact Emission.lt_of_steps hpairwise hne (fun hback => hback k hk hfirm rfl rfl) hi hj

end Normalized

/-- Every block of a patch has its place in the order. -/
theorem Patch.exists_order {p : Patch} {r : Registry} {time : Time} (ix : BlockIx) (hix : ix.index < (p.normalize r).1.blocks.length) :
    ∃ u ∈ (p.analysis r time).order, (p.analysis r time).graph.node u = .block ix := by
  have hblock : ix.index < ((p.normalize r).1.dependencies r).blockCount := hix
  refine ⟨ix.index, Normalized.mem_order (Nat.lt_of_lt_of_le hblock (Nat.le_add_right _ _)), ?_⟩
  exact if_pos hblock

/-- The schedule of every program that a compilation returns, also of one with errors: no step is there twice, the blocks that have one
are those that were lowered, the buses that have one are those that have a value, and along a link between two components, or from a block
to a bus, the step of the source comes before that of the target. -/
theorem schedule_steps_exact {p : Patch} {r : Registry} {options : Options} (hr : r.Loaded) {l : Linked}
    (hl : (compile p r options).linked = some l) :
    ∃ lowered buses,
      (Compilation.run { patch := p, registry := r, options } .link).state.artifacts.lowered = some lowered ∧
      (Compilation.run { patch := p, registry := r, options } .link).state.artifacts.buses = some buses ∧
      l.program.schedule.Nodup ∧
      (∀ b : BlockIx, .block b ∈ l.program.schedule ↔ ∃ inputs outputs, lowered.outcomes[b.index]? = some (.lowered inputs outputs)) ∧
      (∀ b : BusIx, .bus b ∈ l.program.schedule ↔ ∃ o, buses[b.index]? = some o ∧ o.value.isSome = true) ∧
      let g := (p.normalize r).1.dependencies r
      let c := g.condense (p.normalize r).1 r
      ∀ k ∈ g.links, c.placeOf k.source ≠ c.placeOf k.target ∨ k.kind = .publish → ∀ i j : Nat,
        l.program.schedule[i]? = some (g.step k.source) → l.program.schedule[j]? = some (g.step k.target) → i < j := by
  obtain ⟨time, hpasses, hprogram⟩ := passes_of_linked hl
  obtain ⟨hlowered, hbuses, -⟩ := hpasses.artifacts_eq options
  have hschedule := Regime.schedule_emission (a := p.analysis r time) hr.standard (List.length_map _) (p.normalize r).2 options
  have horder := (p.analysis r time).order_emission (p.normalize r).2 options
  rw [hprogram, hschedule]
  refine ⟨_, _, hlowered, hbuses, Normalized.nodup_steps horder, fun b => ?_, fun b => ?_, fun k hk hfirm i j hi hj => ?_⟩
  · exact Emission.block_mem_steps (fun u hu => Normalized.mem_order_emission horder hu) (Emission.length_outcomes _ _ _)
  · exact Emission.bus_mem_steps (fun u hu => Normalized.mem_order_emission horder hu) (Emission.length_buses _ _ _)
  · exact Normalized.lt_of_firm rfl horder hk hfirm hi hj

/-- A constant that is published to a bus, next to a delay that starts from no number. -/
def halfLowered : Patch where
  blocks := [⟨"c", "Const", {}, {}⟩, ⟨"d", "Delay", Dict.insert {} "init" (.text "x"), {}⟩, ⟨"t", "InfiniteTimeRoot", {}, {}⟩]
  edges := [{ id := "e", source := .port "c" "out", target := .bus "k" }]
  buses := [{ id := "k", type := "Signal<float>" }]

/-- The delay has an error and no step; the constant and its bus have one each, in this order. -/
theorem schedule_steps_exact_halfLowered :
    hasErrors (compile halfLowered .builtin {}).diagnostics = true ∧
    ∃ l, (compile halfLowered .builtin {}).linked = some l ∧ l.program.schedule.Nodup ∧
      .block ⟨0⟩ ∈ l.program.schedule ∧ .block ⟨1⟩ ∉ l.program.schedule ∧ .bus ⟨0⟩ ∈ l.program.schedule ∧
      ∀ i j : Nat, l.program.schedule[i]? = some (.block ⟨0⟩) → l.program.schedule[j]? = some (.bus ⟨0⟩) → i < j := by
  have hfacts : hasErrors (compile halfLowered .builtin {}).diagnostics = true
      ∧ (compile halfLowered .builtin {}).linked.isSome = true
      ∧ ⟨0, 3, .publish, 0, "e"⟩ ∈ ((halfLowered.normalize .builtin).1.dependencies .builtin).links
      ∧ (Compilation.run { patch := halfLowered, registry := .builtin } .link).state.artifacts.lowered.any
        (fun lowered => (lowered.outcome ⟨0⟩).outputs?.isSome && !(lowered.outcome ⟨1⟩).outputs?.isSome) = true
      ∧ (Compilation.run { patch := halfLowered, registry := .builtin } .link).state.artifacts.buses.any
        (fun buses => buses[0]?.any (·.value.isSome)) = true := by
    decide +kernel
  obtain ⟨herrors, hlinked, hlink, hlowered, hbuses⟩ := hfacts
  obtain ⟨l, hl⟩ := Option.isSome_iff_exists.1 hlinked
  obtain ⟨lowered, buses, hlowered', hbuses', hnodup, hblock, hbus, hlinks⟩ := schedule_steps_exact .builtin hl
  rw [hlowered', Option.any_some, Bool.and_eq_true, Bool.not_eq_true'] at hlowered
  rw [hbuses', Option.any_some] at hbuses
  refine ⟨herrors, l, hl, hnodup, ?_, ?_, (hbus ⟨0⟩).2 ((Option.any_eq_true _ _).1 hbuses), ?_⟩
  · exact (hblock ⟨0⟩).2 (Lowered.outputs?_isSome_iff.1 hlowered.1)
  · intro hmem
    cases hlowered.2.symm.trans (Lowered.outputs?_isSome_iff.2 ((hblock ⟨1⟩).1 hmem))
  · exact hlinks _ hlink (.inr rfl)

end PatchGraph
