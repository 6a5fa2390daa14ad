import PatchGraph.Proofs.Compile.Forms

/-!
# Runs without errors

A compilation that reports no error in the end did not report one on the way, since what is said stays said. So each step of it was
clean, and what a step does only after it has reported an error did not happen: no input was refused and no lowering failed.
-/

namespace PatchGraph

theorem hasErrors_append (ds es : List Diagnostic) : hasErrors (ds ++ es) = (hasErrors ds || hasErrors es) := List.any_append

namespace Emit

variable {α β : Type} {P : Diagnostic → Prop} {w : Workbench}

/-- No error was reported up to the end of a step. -/
def Clean (m : Emit α) (w : Workbench) : Prop := hasErrors (m.run w).2.diagnostics = false

/-- What came before a clean step was clean. -/
theorem Clean.before {m : Emit α} (h : m.Clean w) (hm : m.Says P) : hasErrors w.diagnostics = false := by
  obtain ⟨ds, heq, -⟩ := hm w
  rw [Clean, heq, hasErrors_append, Bool.or_eq_false_iff] at h
  exact h.1

/-- The parts of a clean step are clean. -/
theorem Clean.bind {m : Emit α} {f : α → Emit β} (h : (m >>= f).Clean w) (hf : ∀ x, (f x).Says P) :
    m.Clean w ∧ (f (m.run w).1).Clean (m.run w).2 :=
  ⟨Clean.before (w := (m.run w).2) h (hf _), h⟩

/-- An error that is reported is no clean step. -/
theorem not_clean_report {d : Diagnostic} (hd : d.isError = true) : ¬(report d).Clean w := by
  intro h
  have herror : hasErrors (w.diagnostics ++ [d]) = true := by
    rw [hasErrors_append]
    simp [hasErrors, hd]
  cases herror.symm.trans h

end Emit

namespace Visit

variable {α β : Type} {P : Diagnostic → Prop} {v : Visited} {w : Workbench}

theorem run_bind (m : Visit α) (f : α → Visit β) (v : Visited) (w : Workbench) :
    ((m >>= f).run v).run w = ((f ((m.run v).run w).1.1).run ((m.run v).run w).1.2).run ((m.run v).run w).2 :=
  rfl

/-- No error was reported up to the end of a step of lowering blocks. -/
def Clean (m : Visit α) (v : Visited) (w : Workbench) : Prop := Emit.Clean (m.run v) w

/-- The parts of a clean step are clean. -/
theorem Clean.bind {m : Visit α} {f : α → Visit β} (h : (m >>= f).Clean v w) (hf : ∀ x, (f x).Says P) :
    m.Clean v w ∧ (f ((m.run v).run w).1.1).Clean ((m.run v).run w).1.2 ((m.run v).run w).2 :=
  Emit.Clean.bind (m := m.run v) (f := fun r => (f r.1).run r.2) h fun r => hf r.1 r.2

/-- Nothing clean comes after an error was reported. -/
theorem not_clean_report_bind {d : Diagnostic} {f : Unit → Visit α} (hd : d.isError = true) (hf : ∀ x, (f x).Says P) :
    ¬(report d >>= f).Clean v w := by
  intro h
  have hreport : (Emit.report d).Clean w := (h.bind hf).1
  exact Emit.not_clean_report hd hreport

variable {a : Analysis} {slots : BusSlots}

/-- Resolve an input whose writers are allowed. -/
def boundInput (a : Analysis) (slots : BusSlots) (t : ValueType) (policy : CombinePolicy) (ws : List Writer) : Visit Resolution := do
  let values ← terms a slots t ws
  match ← build (Build.reduce t policy values) with
  | none => return .unbound
  | some v => return .bound v

/-- In a clean run the writers of an input are allowed, and it has one unless it is optional or not there. -/
theorem Clean.resolveInput {ix : BlockIx} {input : InputDecl} (h : (Visit.resolveInput a slots ix input).Clean v w) :
    (a.types.inputType? ix input.id = none ∨ a.patch.writers ix input.id = [])
        ∧ ((Visit.resolveInput a slots ix input).run v).run w = ((.unbound, v), w)
      ∨ ∃ t, a.types.inputType? ix input.id = some t
        ∧ (boundInput a slots t (input.combine.getD {}) (a.patch.writers ix input.id)).Clean v w
        ∧ ((Visit.resolveInput a slots ix input).run v).run w
          = ((boundInput a slots t (input.combine.getD {}) (a.patch.writers ix input.id)).run v).run w := by
  revert h
  unfold Visit.resolveInput
  dsimp only
  cases a.types.inputType? ix input.id with
  | none => exact fun _ => .inl ⟨.inl rfl, rfl⟩
  | some t =>
    dsimp only
    cases hproblem : policyProblem? t (input.combine.getD {}) (a.patch.writers ix input.id) (.port (a.patch.blockId ix) input.id) with
    | some d => exact fun h => absurd h (not_clean_report_bind (complaint_of_policyProblem hproblem).isError fun _ => .pure (P := fun _ => True) _)
    | none =>
      dsimp only
      by_cases hempty : (a.patch.writers ix input.id).isEmpty
      · rw [if_pos hempty]
        split
        · exact fun h => absurd h (not_clean_report_bind rfl fun _ => .pure (P := fun _ => True) _)
        · exact fun _ => .inl ⟨.inr (List.isEmpty_iff.1 hempty), rfl⟩
      · rw [if_neg hempty]
        exact fun h => .inr ⟨t, rfl, h, rfl⟩

theorem boundInput_ne_rejected (t : ValueType) (policy : CombinePolicy) (ws : List Writer) (v : Visited) (w : Workbench) :
    (((boundInput a slots t policy ws).run v).run w).1.1 ≠ .rejected := by
  rw [boundInput, run_bind, run_bind]
  split <;> exact Resolution.noConfusion

/-- In a clean run no input is rejected. -/
theorem Clean.resolveInput_ne_rejected {ix : BlockIx} {input : InputDecl} (h : (Visit.resolveInput a slots ix input).Clean v w) :
    (((Visit.resolveInput a slots ix input).run v).run w).1.1 ≠ .rejected := by
  rcases h.resolveInput with ⟨-, hrun⟩ | ⟨t, -, -, hrun⟩
  · rw [hrun]
    exact Resolution.noConfusion
  · rw [hrun]
    exact boundInput_ne_rejected t _ _ v w

theorem Clean.resolveInputs {ix : BlockIx} {inputs : List InputDecl} (hdeclared : ∀ input ∈ inputs, a.Declares ix input)
    {done : Dict ValueRef} (h : (Visit.resolveInputs a slots ix inputs done).Clean v w) :
    ∃ d, (((Visit.resolveInputs a slots ix inputs done).run v).run w).1.1 = some d := by
  induction inputs generalizing done v w with
  | nil => exact ⟨done, rfl⟩
  | cons input rest ih =>
    obtain ⟨hinput, hrest⟩ := List.forall_mem_cons.1 hdeclared
    obtain ⟨hfirst, hmore⟩ := h.bind (P := Finding a) fun res => by
      cases res with
      | unbound => exact says_resolveInputs .step .inputPolicy .missingInput slots hrest done
      | bound x => exact says_resolveInputs .step .inputPolicy .missingInput slots hrest _
      | rejected => exact (says_resolveInputs .step .inputPolicy .missingInput slots hrest done).bind fun _ => .pure none
    have hne := hfirst.resolveInput_ne_rejected
    rw [Visit.resolveInputs, run_bind]
    generalize ((Visit.resolveInput a slots ix input).run v).run w = s at hne hmore
    obtain ⟨⟨res, v⟩, w⟩ := s
    cases res with
    | unbound => exact ih hrest hmore
    | bound x => exact ih hrest hmore
    | rejected => exact absurd rfl hne

/-- In a clean run the lowering of a block succeeds, and it makes states only if the block is a boundary. -/
theorem Clean.runLowering {decl : BlockDecl} {l : Lowering} {site : Site} {ix : BlockIx} {b : Block} {inputs : Dict ValueRef}
    (h : (Visit.runLowering decl l site b inputs).Clean v w) (hb : a.patch.block? ix = some b) :
    let r := (l.run site inputs).run.run w.builder
    ∃ outputs, r.1 = .ok outputs ∧ (w.builder.states.size < r.2.states.size → decl.stateBoundary = true)
      ∧ ((Visit.runLowering decl l site b inputs).run v).run w
        = ((Visit.conclude site.outputs b inputs (.ok outputs)).run v).run { w with builder := r.2 } := by
  intro r
  let rest : Visit BlockOutcome := do
    if w.builder.states.size < r.2.states.size ∧ !decl.stateBoundary then report (stateInPureBlock b)
    conclude site.outputs b inputs r.1
  have hrest : rest.Clean v { w with builder := r.2 } := h
  have hrun : ((Visit.runLowering decl l site b inputs).run v).run w = (rest.run v).run { w with builder := r.2 } := rfl
  have hsays : ∀ _ : PUnit, Says (conclude site.outputs b inputs r.1) (Finding a) :=
    fun _ => says_conclude (.blockFailed · hb) site.outputs inputs r.1
  by_cases hstates : w.builder.states.size < r.2.states.size ∧ !decl.stateBoundary
  · simp only [rest, if_pos hstates] at hrest
    exact absurd hrest (not_clean_report_bind rfl hsays)
  · simp only [rest, if_neg hstates] at hrest hrun
    cases hresult : r.1 with
    | error e =>
      rw [hresult] at hrest
      exact absurd hrest (not_clean_report_bind rfl fun _ => .pure (P := Finding a) _)
    | ok outputs =>
      rw [hresult] at hrun
      refine ⟨outputs, rfl, fun hmore => ?_, hrun⟩
      cases hpure : decl.stateBoundary with
      | true => rfl
      | false => exact absurd ⟨hmore, by simp [hpure]⟩ hstates

/-- In a clean run a block is skipped, or its inputs are resolved and its lowering is run. -/
theorem Clean.lowerBlock {ix : BlockIx} (h : (Visit.lowerBlock a slots ix).Clean v w) :
    (a.lowering? ix = none ∨ a.types.ports? ix = none) ∧ ((Visit.lowerBlock a slots ix).run v).run w = ((.skipped, v), w)
      ∨ ∃ b entry l ports inputs, a.patch.block? ix = some b ∧ a.entry? ix = some entry ∧ a.lowering? ix = some l
        ∧ a.types.ports? ix = some ports
        ∧ let s := ((Visit.resolveInputs a slots ix entry.decl.inputs {}).run v).run w
          let lowering := Visit.runLowering entry.decl l ⟨ix, b.id, b.params, ports.outputs, a.time.model⟩ b inputs
          (Visit.resolveInputs a slots ix entry.decl.inputs {}).Clean v w ∧ s.1.1 = some inputs ∧ lowering.Clean s.1.2 s.2
            ∧ ((Visit.lowerBlock a slots ix).run v).run w = (lowering.run s.1.2).run s.2 := by
  revert h
  unfold Visit.lowerBlock
  split
  · rename_i b entry l ports hb hentry hl hports
    intro h
    obtain ⟨hresolve, hrest⟩ := h.bind (P := Finding a) fun o => by
      cases o with
      | none => exact .pure _
      | some inputs => exact says_runLowering (.blockFailed · hb) (.stateInPureBlock hb) _ _ _ _
    obtain ⟨inputs, hinputs⟩ := hresolve.resolveInputs (declares_of_entry hentry)
    rw [hinputs] at hrest
    refine .inr ⟨b, entry, l, ports, inputs, hb, hentry, hl, hports, hresolve, hinputs, hrest, ?_⟩
    rw [run_bind, hinputs]
  · rename_i hskipped
    refine fun _ => .inl ⟨?_, rfl⟩
    cases hl : a.lowering? ix with
    | none => exact .inl rfl
    | some l =>
      obtain ⟨entry, hentry, -⟩ := Option.bind_eq_some_iff.1 hl
      obtain ⟨b, hb, -⟩ := Option.bind_eq_some_iff.1 hentry
      exact .inr (Option.eq_none_iff_forall_ne_some.2 fun ports => hskipped b entry l ports hb hentry hl)

/-- What holds of the blocks lowered so far holds of all blocks after a clean run, if lowering one more of them keeps it; and each block
among the nodes was lowered. -/
theorem Clean.lowerNodes {I : Visited → Builder → Prop} (hgood : ∀ {v b}, I v b → ∃ R : Regime, R.Good a (.whole a slots) v b)
    (hstep : ∀ ix v w, (Visit.lowerBlock a slots ix).Clean v w → I v w.builder →
      let s := ((Visit.lowerBlock a slots ix).run v).run w
      I { s.1.2 with outcomes := s.1.2.outcomes ++ [(ix, s.1.1)] } s.2.builder)
    (nodes : List Nat) (h : (Visit.lowerNodes a slots nodes).Clean v w) (hv : I v w.builder) :
    let s := ((Visit.lowerNodes a slots nodes).run v).run w
    I s.1.2 s.2.builder ∧ (∀ ix, (v.outcomes.lookup ix).isSome = true → (s.1.2.outcomes.lookup ix).isSome = true)
      ∧ ∀ u ∈ nodes, ∀ ix, a.graph.node u = .block ix → (s.1.2.outcomes.lookup ix).isSome = true := by
  induction nodes generalizing v w with
  | nil => exact ⟨hv, fun _ hix => hix, fun u hu => absurd hu List.not_mem_nil⟩
  | cons u rest ih =>
    unfold Visit.lowerNodes at h ⊢
    cases hu : a.graph.node u with
    | bus b =>
      rw [hu] at h
      obtain ⟨hI, hkept, hnodes⟩ := ih h hv
      exact ⟨hI, hkept, List.forall_mem_cons.2 ⟨fun ix hix => Node.noConfusion (hu.symm.trans hix), hnodes⟩⟩
    | block ix =>
      rw [hu] at h
      obtain ⟨R, hR⟩ := hgood hv
      have houtcomes := hR.outcomes_lowerBlock ix
      obtain ⟨hblock, hrest⟩ := h.bind fun o => (Says.modify _).bind fun _ => says_lowerNodes (finds_lowerBlock slots) rest
      obtain ⟨hI, hkept, hnodes⟩ := ih hrest (hstep ix v w hblock hv)
      refine ⟨hI, fun x hx => hkept x ?_, List.forall_mem_cons.2 ⟨fun x hix => ?_, hnodes⟩⟩
      · show (List.lookup x ((((Visit.lowerBlock a slots ix).run v).run w).1.2.outcomes ++ _)).isSome = true
        rw [houtcomes, List.lookup_append, Option.isSome_or, hx, Bool.true_or]
      · obtain rfl := Node.block.inj (hu.symm.trans hix)
        refine hkept ix ?_
        show (List.lookup ix ((((Visit.lowerBlock a slots ix).run v).run w).1.2.outcomes ++ _)).isSome = true
        rw [List.lookup_append, Option.isSome_or, List.lookup_cons_self]
        exact Bool.or_true _

end Visit

/-! ## Clean compilations -/

/-- In a clean emission each stage is clean. -/
theorem Emission.clean_stages {e : Emission} (h : hasErrors e.diagnostics = false) :
    hasErrors e.afterBlocks.diagnostics = false ∧ hasErrors e.afterBuses.diagnostics = false
      ∧ hasErrors e.afterLink.diagnostics = false := by
  simp only [diagnostics, hasErrors_append, Bool.or_eq_false_iff] at h
  exact ⟨h.1.1, h.1.2, h.2.1⟩

/-- The patch of a clean compilation passes its checks, and its emission is clean. -/
theorem clean_compile {p : Patch} {r : Registry} {options : Options} (h : hasErrors (compile p r options).diagnostics = false) :
    ∃ time, (p.normalize r).1.Passes r time
      ∧ hasErrors ((p.analysis r time).emission (p.normalize r).2 options).diagnostics = false := by
  rcases passes_or_refused p r options with ⟨time, hpasses⟩ | ⟨-, -, herrors⟩
  · refine ⟨time, hpasses, ?_⟩
    rwa [← (hpasses.compile_eq options).2.1]
  · cases h.symm.trans herrors

/-- What lowering one more block keeps holds of the blocks of a clean emission, and all of them were lowered. -/
theorem Analysis.exists_visited {a : Analysis} {consts : Pool} {options : Options} {I : Visited → Builder → Prop}
    (hclean : hasErrors (a.emission consts options).diagnostics = false)
    (hgood : ∀ {v b}, I v b → ∃ R : Regime, R.Good a (.whole a (a.emission consts options).slots) v b)
    (hstep : ∀ ix v w, (Visit.lowerBlock a (a.emission consts options).slots ix).Clean v w → I v w.builder →
      let s := ((Visit.lowerBlock a (a.emission consts options).slots ix).run v).run w
      I { s.1.2 with outcomes := s.1.2.outcomes ++ [(ix, s.1.1)] } s.2.builder)
    (hstart : I {} ((reserveBusSlots a.types.buses).run { consts, timeModel := some a.time.model }).2) :
    let e := a.emission consts options
    ∃ v, I v e.afterBlocks.builder ∧ e.lowered.forwards = v.forwards
      ∧ e.lowered.outcomes = ((List.range a.patch.blocks.length).map fun i => (v.outcomes.lookup ⟨i⟩).getD .skipped)
      ∧ ∀ u ∈ a.order, ∀ ix, a.graph.node u = .block ix → (v.outcomes.lookup ix).isSome = true := by
  obtain ⟨hI, -, hnodes⟩ := Visit.Clean.lowerNodes hgood hstep a.order (w := { builder := _ }) (Emission.clean_stages hclean).1 hstart
  exact ⟨_, hI, rfl, rfl, hnodes⟩

end PatchGraph
