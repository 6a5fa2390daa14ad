import PatchGraph.Proofs.Compile.Supply

/-!
# What is said of policies

What is wrong with the policies of inputs and buses is told by the patch and the registry alone. The stages that look at policies report
just that, whatever else they find (`Emit.Adds`): the inputs of a block with a lowering when the block is lowered, those of other blocks
when the program is linked, and each bus when its value is made. So all that is wrong is said once (`perm_policies`), and the lowering of
a block that something is wrong with is not run (`failsDuly_emission`).
-/

namespace PatchGraph

/-! ## What steps add -/

namespace Emit

variable {α β : Type} {q : Diagnostic → Bool} {ds es : List Diagnostic}

/-- Of the diagnostics of a kind, a step of emitting adds just these. -/
def Adds (m : Emit α) (q : Diagnostic → Bool) (ds : List Diagnostic) : Prop :=
  ∀ w, (m.run w).2.diagnostics.filter q = w.diagnostics.filter q ++ ds

/-- A step that says nothing of the kind adds nothing of it. -/
theorem Says.adds {m : Emit α} (h : m.Says fun d => q d = false) : m.Adds q [] := by
  intro w
  obtain ⟨ds, heq, hds⟩ := h w
  rw [heq, List.filter_append, List.filter_eq_nil_iff.2 fun d hd => Bool.eq_false_iff.1 (hds d hd)]

/-- A report of the kind adds itself. -/
theorem adds_report {d : Diagnostic} (h : q d = true) : (report d).Adds q [d] := by
  intro w
  show (w.diagnostics ++ [d]).filter q = _
  rw [List.filter_append, List.filter_cons_of_pos h, List.filter_nil]

/-- What two steps add, one after the other. -/
theorem Adds.bind {m : Emit α} {f : α → Emit β} (h : m.Adds q ds) (hf : ∀ x, (f x).Adds q es) : (m >>= f).Adds q (ds ++ es) := by
  intro w
  have hfirst := h w
  have hmore := hf (m.run w).1 (m.run w).2
  rw [hfirst, List.append_assoc] at hmore
  exact hmore

/-- What a step adds last is all that it adds if it says nothing of the kind before. -/
theorem Adds.after {m : Emit α} {f : α → Emit β} (h : m.Says fun d => q d = false) (hf : ∀ x, (f x).Adds q ds) :
    (m >>= f).Adds q ds :=
  h.adds.bind hf

/-- What a step adds first is all that it adds if it says nothing of the kind afterwards. -/
theorem Adds.before {m : Emit α} {f : α → Emit β} (h : m.Adds q ds) (hf : ∀ x, (f x).Says fun d => q d = false) :
    (m >>= f).Adds q ds := by
  have := h.bind fun x => (hf x).adds
  rwa [List.append_nil] at this

/-- All that a step adds when nothing was said before. -/
theorem Adds.all {m : Emit α} (h : m.Adds q ds) (b : Builder) : (m.run { builder := b }).2.diagnostics.filter q = ds := h { builder := b }

end Emit

namespace Visit

variable {α β : Type} {q : Diagnostic → Bool} {ds es : List Diagnostic}

/-- Of the diagnostics of a kind, a step of lowering blocks adds just these. -/
def Adds (m : Visit α) (q : Diagnostic → Bool) (ds : List Diagnostic) : Prop := ∀ v, Emit.Adds (m.run v) q ds

/-- A visit that says nothing of the kind adds nothing of it. -/
theorem Says.adds {m : Visit α} (h : m.Says fun d => q d = false) : m.Adds q [] := fun v => (h v).adds

/-- A report of the kind adds itself to a visit. -/
theorem adds_report {d : Diagnostic} (h : q d = true) : (report d).Adds q [d] :=
  fun v => (Emit.adds_report h).before fun x => .pure (x, v)

/-- What two visits add, one after the other. -/
theorem Adds.bind {m : Visit α} {f : α → Visit β} (h : m.Adds q ds) (hf : ∀ x, (f x).Adds q es) : (m >>= f).Adds q (ds ++ es) :=
  fun v => (h v).bind fun r => hf r.1 r.2

/-- A visit adds what its first part adds if the rest says nothing of the kind. -/
theorem Adds.before {m : Visit α} {f : α → Visit β} (h : m.Adds q ds) (hf : ∀ x, (f x).Says fun d => q d = false) :
    (m >>= f).Adds q ds :=
  fun v => (h v).before fun r => hf r.1 r.2

/-- What a step of lowering blocks returns satisfies a condition, whatever came before. -/
def Returns (m : Visit α) (P : α → Prop) : Prop := ∀ v w, P ((m.run v).run w).1.1

/-- A visit returns what it is given. -/
theorem Returns.pure {P : α → Prop} {x : α} (h : P x) : Returns (pure x) P := fun _ _ => h

theorem Returns.any {m : Visit α} : m.Returns fun _ => True := fun _ _ => trivial

/-- What a visit returns is returned by its last part. -/
theorem Returns.bind {m : Visit α} {f : α → Visit β} {P : α → Prop} {Q : β → Prop} (h : m.Returns P)
    (hf : ∀ x, P x → (f x).Returns Q) : (m >>= f).Returns Q :=
  fun v w => hf _ (h v w) _ _

/-- What is said after a step may depend on what the step can return. -/
theorem Says.bind_of_returns {m : Visit α} {f : α → Visit β} {P : Diagnostic → Prop} {Q : α → Prop} (h : m.Says P) (hm : m.Returns Q)
    (hf : ∀ x, Q x → (f x).Says P) : (m >>= f).Says P := by
  intro v w
  obtain ⟨ds, heq, hds⟩ := h v w
  obtain ⟨es, heq', hes⟩ := hf _ (hm v w) ((m.run v).run w).1.2 ((m.run v).run w).2
  refine ⟨ds ++ es, ?_, List.forall_mem_append.2 ⟨hds, hes⟩⟩
  rw [← List.append_assoc, ← heq]
  exact heq'

end Visit

/-! ## What is wrong with policies -/

/-- Whether a diagnostic is about a policy that cannot be kept. -/
def Diagnostic.isPolicy (d : Diagnostic) : Bool := d.code = some .combineNotAllowed || d.code = some .severalWriters

/-- What is wrong with the steps of an edge is not about a policy. -/
theorem ChainError.isPolicy_diagnostic (e : ChainError) (edge : Edge) : (e.diagnostic edge).isPolicy = false := by
  obtain ⟨_ | _, _⟩ := e <;> rfl

/-- All complaints are about policies. -/
theorem Complaint.isPolicy {t : ValueType} {mode : CombineMode} {writers : Nat} {locator : Locator} {d : Diagnostic}
    (h : Complaint t mode writers locator d) : d.isPolicy = true := by
  rw [Diagnostic.isPolicy]
  rcases h.code with ⟨-, hcode⟩ | ⟨-, hcode⟩ <;> rw [hcode] <;> rfl

namespace Analysis

variable (a : Analysis)

/-- What is wrong with the policy of an input of a block. -/
def inputProblem? (ix : BlockIx) (input : InputDecl) : Option Diagnostic :=
  (a.types.inputType? ix input.id).bind fun t =>
    policyProblem? t (input.combine.getD {}) (a.patch.writers ix input.id) (.port (a.patch.blockId ix) input.id)

/-- What is wrong with the policies of the inputs of a block. -/
def inputProblems (ix : BlockIx) : List Diagnostic :=
  ((a.patch.decl? a.registry ix).map fun d => d.inputs.filterMap (a.inputProblem? ix)).getD []

/-- The problems of inputs, one input after the other. -/
theorem filterMap_inputProblem_cons (ix : BlockIx) (input : InputDecl) (rest : List InputDecl) :
    (input :: rest).filterMap (a.inputProblem? ix) = (a.inputProblem? ix input).toList ++ rest.filterMap (a.inputProblem? ix) := by
  rw [List.filterMap_cons]
  cases a.inputProblem? ix input <;> rfl

/-- What is wrong with the policy of a bus. -/
def busProblem? (x : BusIx × Bus) : Option Diagnostic :=
  (a.types.busType? x.1).bind fun t => BusValue.policyProblem? x.2 t (a.patch.publishers x.2.id)

/-- All that is wrong with the policies of a patch. -/
def policyProblems : List Diagnostic :=
  (a.patch.placedBlocks.map (·.1)).flatMap a.inputProblems ++ a.patch.placedBuses.filterMap a.busProblem?

/-- Whether a block has a lowering, and ports that it can be told of. -/
def attempts (ix : BlockIx) : Bool := (a.lowering? ix).isSome && (a.types.ports? ix).isSome

/-- If a diagnostic says that the lowering of a block failed, nothing is wrong with the policies of its inputs. -/
def FailsDuly (d : Diagnostic) : Prop :=
  d.code = some .blockFailed → ∃ ix b, a.patch.block? ix = some b ∧ d.locator = .block b.id
    ∧ (a.attempts ix = true → a.inputProblems ix = [])

end Analysis

variable {a : Analysis}

/-! ## Blocks -/

namespace Visit

variable {slots : BusSlots} {ix : BlockIx}

/-- To resolve an input reports what is wrong with its policy. -/
theorem adds_resolveInput (slots : BusSlots) (ix : BlockIx) (input : InputDecl) :
    (resolveInput a slots ix input).Adds Diagnostic.isPolicy (a.inputProblem? ix input).toList := by
  unfold resolveInput Analysis.inputProblem?
  dsimp only
  cases a.types.inputType? ix input.id with
  | none => exact Says.adds (.pure _)
  | some t =>
    dsimp only [Option.bind_some]
    cases hp : policyProblem? t (input.combine.getD {}) (a.patch.writers ix input.id) (.port (a.patch.blockId ix) input.id) with
    | some d => exact (adds_report (complaint_of_policyProblem hp).isPolicy).before fun _ => .pure _
    | none =>
      refine Says.adds ?_
      dsimp only
      split
      · split
        · exact (says_report (P := fun d => d.isPolicy = false) rfl).bind fun _ => .pure _
        · exact .pure _
      · refine (says_terms (fun e _ => e.isPolicy_diagnostic _) slots t _).bind fun values => (says_build _).bind fun o => ?_
        cases o <;> exact .pure _

/-- To resolve the inputs of a block reports what is wrong with their policies. -/
theorem adds_resolveInputs (slots : BusSlots) (ix : BlockIx) (inputs : List InputDecl) (done : Dict ValueRef) :
    (resolveInputs a slots ix inputs done).Adds Diagnostic.isPolicy (inputs.filterMap (a.inputProblem? ix)) := by
  induction inputs generalizing done with
  | nil => exact Says.adds (.pure _)
  | cons input rest ih =>
    rw [a.filterMap_inputProblem_cons]
    refine (adds_resolveInput slots ix input).bind fun res => ?_
    cases res with
    | unbound => exact ih done
    | bound v => exact ih _
    | rejected => exact (ih done).before fun _ => .pure none

/-- An input is rejected if and only if something is wrong with its policy. -/
theorem returns_resolveInput (slots : BusSlots) (ix : BlockIx) (input : InputDecl) :
    (resolveInput a slots ix input).Returns fun res => res = .rejected ↔ a.inputProblem? ix input ≠ none := by
  unfold resolveInput Analysis.inputProblem?
  dsimp only
  cases a.types.inputType? ix input.id with
  | none => exact .pure (by simp)
  | some t =>
    dsimp only [Option.bind_some]
    cases policyProblem? t (input.combine.getD {}) (a.patch.writers ix input.id) (.port (a.patch.blockId ix) input.id) with
    | some d => exact Returns.any.bind fun _ _ => .pure (by simp)
    | none =>
      dsimp only
      split
      · split
        · exact Returns.any.bind fun _ _ => .pure (by simp)
        · exact .pure (by simp)
      · refine Returns.any.bind fun _ _ => ?_
        refine Returns.any.bind fun o _ => ?_
        cases o <;> exact .pure (by simp)

/-- Inputs are resolved to values exactly if nothing is wrong with the policy of any of them. -/
theorem returns_resolveInputs (slots : BusSlots) (ix : BlockIx) (inputs : List InputDecl) (done : Dict ValueRef) :
    (resolveInputs a slots ix inputs done).Returns fun o => o = none ↔ inputs.filterMap (a.inputProblem? ix) ≠ [] := by
  induction inputs generalizing done with
  | nil => exact .pure (by simp)
  | cons input rest ih =>
    refine (returns_resolveInput slots ix input).bind fun res hres => ?_
    cases hproblem : a.inputProblem? ix input with
    | none =>
      rw [List.filterMap_cons_none hproblem]
      cases res with
      | unbound => exact ih done
      | bound v => exact ih _
      | rejected => exact absurd hproblem (hres.1 rfl)
    | some d =>
      obtain rfl : res = .rejected := hres.2 (by simp [hproblem])
      rw [List.filterMap_cons_some hproblem]
      exact Returns.any.bind fun _ _ => .pure (by simp)

/-- A block without a lowering is skipped; any other has its inputs resolved, and then its lowering is run. -/
theorem lowerBlock_cases (a : Analysis) (slots : BusSlots) (ix : BlockIx) :
    a.attempts ix = false ∧ lowerBlock a slots ix = pure .skipped
      ∨ a.attempts ix = true ∧ ∃ (b : Block) (entry : BlockEntry) (l : Lowering) (ports : PortTypes),
        a.patch.block? ix = some b ∧ a.entry? ix = some entry ∧ lowerBlock a slots ix = (do
          match ← resolveInputs a slots ix entry.decl.inputs {} with
          | none => return .rejected
          | some inputs => runLowering entry.decl l ⟨ix, b.id, b.params, ports.outputs, a.time.model⟩ b inputs) := by
  unfold lowerBlock Analysis.attempts
  split
  · rename_i b entry l ports hb hentry hl hports
    exact .inr ⟨by rw [hl, hports]; rfl, b, entry, l, ports, hb, hentry, rfl⟩
  · rename_i hskipped
    refine .inl ⟨Bool.eq_false_iff.2 fun hattempts => ?_, rfl⟩
    rw [Bool.and_eq_true, Option.isSome_iff_exists, Option.isSome_iff_exists] at hattempts
    obtain ⟨⟨l, hl⟩, ports, hports⟩ := hattempts
    obtain ⟨entry, hentry, -⟩ := Option.bind_eq_some_iff.1 hl
    obtain ⟨b, hb, -⟩ := Option.bind_eq_some_iff.1 hentry
    exact hskipped b entry l ports hb hentry hl hports

/-- What is wrong with the policies of a block is told by its entry. -/
theorem inputProblems_of_entry {entry : BlockEntry} (h : a.entry? ix = some entry) :
    a.inputProblems ix = entry.decl.inputs.filterMap (a.inputProblem? ix) := by
  rw [Analysis.inputProblems, decl?_of_entry h]
  rfl

/-- While a block with a lowering is lowered, all that is wrong with the policies of its inputs is said. -/
theorem adds_lowerBlock (slots : BusSlots) (ix : BlockIx) :
    (lowerBlock a slots ix).Adds Diagnostic.isPolicy (if a.attempts ix then a.inputProblems ix else []) := by
  rcases lowerBlock_cases a slots ix with ⟨hattempts, heq⟩ | ⟨hattempts, b, entry, l, ports, -, hentry, heq⟩
  · rw [hattempts, heq]
    exact Says.adds (.pure _)
  · rw [hattempts, if_pos rfl, heq, inputProblems_of_entry hentry]
    refine (adds_resolveInputs slots ix entry.decl.inputs {}).before fun o => ?_
    cases o with
    | none => exact .pure _
    | some inputs => exact says_runLowering (P := fun d => d.isPolicy = false) (fun _ => rfl) rfl entry.decl l _ inputs

/-- A block whose lowering is run was attempted. -/
theorem returns_runLowering (decl : BlockDecl) (l : Lowering) (site : Site) (b : Block) (inputs : Dict ValueRef) :
    (runLowering decl l site b inputs).Returns fun o => o.attempted = true := by
  have hconclude : ∀ result, (conclude site.outputs b inputs result).Returns fun o => o.attempted = true := by
    intro result
    cases result with
    | ok outputs => exact Returns.any.bind fun _ _ => .pure rfl
    | error e => exact Returns.any.bind fun _ _ => .pure rfl
  refine Returns.any.bind fun before _ => Returns.any.bind fun result _ => Returns.any.bind fun after _ => ?_
  dsimp only
  split
  · exact Returns.any.bind fun _ _ => hconclude result
  · exact hconclude result

/-- A block is attempted if it has a lowering, and rejected if something is wrong with the policy of an input. -/
theorem returns_lowerBlock (slots : BusSlots) (ix : BlockIx) :
    (lowerBlock a slots ix).Returns fun o =>
      o.attempted = a.attempts ix ∧ (a.attempts ix = true → a.inputProblems ix ≠ [] → o = .rejected) := by
  rcases lowerBlock_cases a slots ix with ⟨hattempts, heq⟩ | ⟨hattempts, b, entry, l, ports, -, hentry, heq⟩
  · rw [heq, hattempts]
    exact .pure ⟨rfl, fun h => by cases h⟩
  · rw [heq, hattempts, inputProblems_of_entry hentry]
    refine (returns_resolveInputs slots ix entry.decl.inputs {}).bind fun o ho => ?_
    cases o with
    | none => exact .pure ⟨rfl, fun _ _ => rfl⟩
    | some inputs =>
      refine fun v w => ⟨returns_runLowering _ _ _ _ _ v w, fun _ hne => ?_⟩
      cases ho.2 hne

/-- The lowering of a block is not run if something is wrong with the policy of an input. -/
theorem says_lowerBlock_failed (slots : BusSlots) (ix : BlockIx) : (lowerBlock a slots ix).Says a.FailsDuly := by
  rcases lowerBlock_cases a slots ix with ⟨-, heq⟩ | ⟨hattempts, b, entry, l, ports, hb, hentry, heq⟩
  · rw [heq]
    exact .pure _
  · rw [heq]
    refine Says.bind_of_returns (says_resolveInputs ?_ ?_ ?_ slots (declares_of_entry hentry) {})
      (returns_resolveInputs slots ix entry.decl.inputs {}) fun o ho => ?_
    · intro _ _ e _ hcode
      obtain ⟨_ | _, _⟩ := e <;> cases hcode
    · intro _ _ _ _ d _ hd hcode
      have hpolicy := (complaint_of_policyProblem hd).isPolicy
      rw [Diagnostic.isPolicy, hcode] at hpolicy
      cases hpolicy
    · intro _ _ hcode
      cases hcode
    · cases o with
      | none => exact .pure _
      | some inputs =>
        refine says_runLowering (fun e _ => ⟨ix, b, hb, rfl, fun _ => ?_⟩) (fun hcode => by cases hcode) entry.decl l _ inputs
        rw [inputProblems_of_entry hentry]
        by_contra hne
        cases ho.2 hne

/-- To lower nodes reports what is wrong with the policies of the blocks that are attempted. -/
theorem adds_lowerNodes (slots : BusSlots) (nodes : List Nat) :
    (lowerNodes a slots nodes).Adds Diagnostic.isPolicy
      ((a.graph.blocksOf nodes).flatMap fun ix => if a.attempts ix then a.inputProblems ix else []) := by
  induction nodes with
  | nil => exact Says.adds (.pure _)
  | cons u rest ih =>
    unfold lowerNodes DependencyGraph.blocksOf
    cases hu : a.graph.node u with
    | bus ix =>
      rw [List.filterMap_cons_none (by simp [hu])]
      exact ih
    | block ix =>
      rw [List.filterMap_cons_some (b := ix) (by simp [hu]), List.flatMap_cons]
      exact (adds_lowerBlock slots ix).bind fun _ => (Says.modify _).adds.bind fun _ => ih

end Visit

/-! ## Buses -/

/-- Whether a diagnostic is about a policy or about a block whose lowering failed. -/
def Diagnostic.isRefusal (d : Diagnostic) : Bool := d.isPolicy || d.code = some .blockFailed

/-- What is wrong with the steps of an edge is neither about a policy nor about a lowering. -/
theorem ChainError.isRefusal_diagnostic (e : ChainError) (edge : Edge) : (e.diagnostic edge).isRefusal = false := by
  obtain ⟨_ | _, _⟩ := e <;> rfl

namespace BusValue

/-- To lower a bus reports what is wrong with its policy, and no lowering that failed. -/
theorem adds_lower (slots : BusSlots) (l : Lowered) (x : BusIx × Bus) :
    (lower a slots l x.1 x.2).Adds Diagnostic.isRefusal (a.busProblem? x).toList := by
  have hsupply : ∀ t failed, (supply a slots l x.1 x.2 t failed).Says fun d => d.isRefusal = false :=
    fun t failed => says_supply (P := fun d => d.isRefusal = false) (fun _ _ => rfl) rfl slots x.1 failed
  unfold lower Analysis.busProblem?
  cases a.types.busType? x.1 with
  | none => exact Emit.Says.adds (.pure _)
  | some t =>
    dsimp only [Option.bind_some]
    cases hproblem : policyProblem? x.2 t (a.patch.publishers x.2.id) with
    | none => exact (hsupply t false).adds
    | some d => exact (Emit.adds_report (by rw [Diagnostic.isRefusal, (complaint_of_policyProblem hproblem).isPolicy]; rfl)).before fun _ => hsupply t true

/-- To lower buses reports what is wrong with their policies, and no lowering that failed. -/
theorem adds_lowerAll (slots : BusSlots) (l : Lowered) (buses : List (BusIx × Bus)) :
    (lowerAll a slots l buses).Adds Diagnostic.isRefusal (buses.filterMap a.busProblem?) := by
  induction buses with
  | nil => exact Emit.Says.adds (.pure _)
  | cons x rest ih =>
    have hall : (x :: rest).filterMap a.busProblem? = (a.busProblem? x).toList ++ rest.filterMap a.busProblem? := by
      rw [List.filterMap_cons]
      cases a.busProblem? x <;> rfl
    rw [hall]
    exact (adds_lower slots l x).bind fun _ => ih.before fun _ => .pure _

end BusValue

/-! ## Linking -/

namespace Linking

variable {l : Lowered}

/-- To resolve an input while linking reports what is wrong with its policy, and no lowering that failed. -/
theorem adds_resolveInput (slots : BusSlots) (ix : BlockIx) (input : InputDecl) :
    (resolveInput a slots l ix input).Adds Diagnostic.isRefusal (a.inputProblem? ix input).toList := by
  unfold resolveInput Analysis.inputProblem?
  cases a.types.inputType? ix input.id with
  | none => exact Emit.Says.adds (.pure _)
  | some t =>
    dsimp only [Option.bind_some]
    cases hp : policyProblem? t (input.combine.getD {}) (a.patch.writers ix input.id) (.port (a.patch.blockId ix) input.id) with
    | some d => exact (Emit.adds_report (by rw [Diagnostic.isRefusal, (complaint_of_policyProblem hp).isPolicy]; rfl)).before fun _ => .pure _
    | none => exact (says_firstTerm (fun e _ => e.isRefusal_diagnostic _) slots t _).adds

/-- To resolve inputs while linking reports what is wrong with their policies. -/
theorem adds_resolveInputs (slots : BusSlots) (ix : BlockIx) (inputs : List InputDecl) (done : Dict ValueRef) :
    (resolveInputs a slots l ix inputs done).Adds Diagnostic.isRefusal (inputs.filterMap (a.inputProblem? ix)) := by
  induction inputs generalizing done with
  | nil => exact Emit.Says.adds (.pure _)
  | cons input rest ih =>
    rw [a.filterMap_inputProblem_cons]
    refine (adds_resolveInput slots ix input).bind fun o => ?_
    cases o with
    | none => exact ih done
    | some v => exact ih _

/-- Linking reports what is wrong with the inputs of blocks that were not attempted before. -/
theorem adds_allInputs (slots : BusSlots) (ixs : List BlockIx) :
    (allInputs a slots l ixs).Adds Diagnostic.isRefusal
      (ixs.flatMap fun ix => if (l.outcome ix).attempted then [] else a.inputProblems ix) := by
  induction ixs with
  | nil => exact Emit.Says.adds (.pure _)
  | cons ix rest ih =>
    rw [List.flatMap_cons]
    refine Emit.Adds.bind ?_ fun _ => ih.before fun _ => .pure _
    unfold blockInputs Analysis.inputProblems
    split
    · exact Emit.Says.adds (.pure _)
    · cases a.patch.decl? a.registry ix with
      | none => exact Emit.Says.adds (.pure _)
      | some d => exact adds_resolveInputs slots ix d.inputs {}

end Linking

/-! ## Emissions -/

/-- What linking says of policies and of blocks that failed is what is wrong with the inputs of blocks without a lowering. -/
theorem Analysis.filter_afterLink (a : Analysis) (consts : Pool) (options : Options) :
    let e := a.emission consts options
    e.afterLink.diagnostics.filter Diagnostic.isRefusal
      = (a.patch.placedBlocks.map (·.1)).flatMap fun ix => if (e.lowered.outcome ix).attempted then [] else a.inputProblems ix := by
  intro e
  have hinputs : (a.linkInputs e.slots e.lowered).Adds Diagnostic.isRefusal _ :=
    .after (Linking.says_bindForwards fun _ _ => rfl) fun _ => Linking.adds_allInputs e.slots (a.patch.placedBlocks.map (·.1))
  let w := ((a.linkInputs e.slots e.lowered).run { builder := e.afterBuses.builder }).2
  show (w.diagnostics ++ Linking.allOutputDiagnostics a e.lowered w.builder ++ Linking.busDiagnostics a e.buses options).filter _ = _
  have houtputs : (Linking.allOutputDiagnostics a e.lowered w.builder).filter Diagnostic.isRefusal = [] := by
    refine List.filter_eq_nil_iff.2 fun d hd => ?_
    obtain ⟨ix, b, ports, port, t, -, -, -, rfl⟩ := Linking.exists_unregistered hd
    exact Bool.false_ne_true
  have hbuses : (Linking.busDiagnostics a e.buses options).filter Diagnostic.isRefusal = [] := by
    refine List.filter_eq_nil_iff.2 fun d hd => ?_
    obtain ⟨b, -, rfl⟩ := Linking.exists_silentBus hd
    exact Bool.false_ne_true
  rw [List.filter_append, List.filter_append, houtputs, hbuses, List.append_nil, List.append_nil]
  exact hinputs.all _

/-- Of policies, the stage of buses says what is wrong with the buses of the patch. -/
theorem Analysis.filter_afterBuses (a : Analysis) (consts : Pool) (options : Options) :
    (a.emission consts options).afterBuses.diagnostics.filter Diagnostic.isRefusal = a.patch.placedBuses.filterMap a.busProblem? :=
  (BusValue.adds_lowerAll _ _ a.patch.placedBuses).all _

/-- Of policies, the stage of blocks says what is wrong with the inputs of the blocks that are attempted. -/
theorem Analysis.filter_afterBlocks (a : Analysis) (consts : Pool) (options : Options) :
    (a.emission consts options).afterBlocks.diagnostics.filter Diagnostic.isPolicy
      = (a.graph.blocksOf a.order).flatMap fun ix => if a.attempts ix then a.inputProblems ix else [] := by
  have hblocks : a.emitBlocks.Adds Diagnostic.isPolicy _ :=
    .after (Emit.says_build _) fun _ => .after (Emit.says_build _) fun slots =>
      Emit.Adds.before (Emit.Adds.before (Visit.adds_lowerNodes slots a.order {}) fun _ => .pure _) fun _ => .pure _
  exact hblocks.all _

/-- A diagnostic that is wrong with the policy of an input names a port of its block. -/
theorem Analysis.of_mem_inputProblems {ix : BlockIx} {d : Diagnostic} (h : d ∈ a.inputProblems ix) :
    d.isPolicy = true ∧ ∃ port, d.locator = .port (a.patch.blockId ix) port := by
  unfold inputProblems at h
  cases hdecl : a.patch.decl? a.registry ix with
  | none =>
    rw [hdecl] at h
    cases h
  | some decl =>
    rw [hdecl] at h
    obtain ⟨input, -, hproblem⟩ := List.mem_filterMap.1 h
    obtain ⟨t, -, hproblem⟩ := Option.bind_eq_some_iff.1 hproblem
    exact ⟨(complaint_of_policyProblem hproblem).isPolicy, input.id, (complaint_of_policyProblem hproblem).about⟩

/-- What is wrong with a bus is about its policy and names the bus. -/
theorem Analysis.of_busProblem? {x : BusIx × Bus} {d : Diagnostic} (h : a.busProblem? x = some d) :
    d.isPolicy = true ∧ d.locator = .bus x.2.id := by
  obtain ⟨t, -, hproblem⟩ := Option.bind_eq_some_iff.1 h
  exact ⟨(BusValue.complaint_of_policyProblem hproblem).isPolicy, (BusValue.complaint_of_policyProblem hproblem).about⟩

theorem Diagnostic.filter_isPolicy {ds es : List Diagnostic} (h : ds.filter Diagnostic.isRefusal = es)
    (hes : ∀ d ∈ es, d.isPolicy = true) : ds.filter Diagnostic.isPolicy = es := by
  have hboth : ds.filter Diagnostic.isPolicy = (ds.filter Diagnostic.isRefusal).filter Diagnostic.isPolicy := by
    rw [List.filter_filter]
    refine List.filter_congr fun d _ => ?_
    rw [isRefusal]
    cases d.isPolicy <;> rfl
  rw [hboth, h, List.filter_eq_self.2 hes]

/-- What is said of policies in an emission is what is wrong with those of the inputs of each block and of each bus, once each. -/
theorem Analysis.perm_policies {consts : Pool} {options : Options}
    (hattempted : ∀ ix ∈ a.patch.placedBlocks.map (·.1), ((a.emission consts options).lowered.outcome ix).attempted = a.attempts ix)
    (horder : (a.graph.blocksOf a.order).Perm (a.patch.placedBlocks.map (·.1))) :
    ((a.emission consts options).diagnostics.filter Diagnostic.isPolicy).Perm a.policyProblems := by
  let e := a.emission consts options
  let ixs := a.patch.placedBlocks.map (·.1)
  have hbuses : e.afterBuses.diagnostics.filter Diagnostic.isPolicy = a.patch.placedBuses.filterMap a.busProblem? :=
    Diagnostic.filter_isPolicy (a.filter_afterBuses consts options) fun d hd => by
      obtain ⟨x, -, hproblem⟩ := List.mem_filterMap.1 hd
      exact (of_busProblem? hproblem).1
  have hlink : e.afterLink.diagnostics.filter Diagnostic.isPolicy
      = ixs.flatMap fun ix => if a.attempts ix then [] else a.inputProblems ix := by
    have hfilter : e.afterLink.diagnostics.filter Diagnostic.isRefusal
        = ixs.flatMap fun ix => if a.attempts ix then [] else a.inputProblems ix :=
      (a.filter_afterLink consts options).trans (List.flatMap_congr fun ix hix => by rw [hattempted ix hix])
    refine Diagnostic.filter_isPolicy hfilter fun d hd => ?_
    obtain ⟨ix, -, hd⟩ := List.mem_flatMap.1 hd
    split at hd
    · cases hd
    · exact (of_mem_inputProblems hd).1
  have hunverified : e.unverified.filter Diagnostic.isPolicy = [] := by
    unfold Emission.unverified
    split <;> rfl
  have hsplit : ∀ ix, (if a.attempts ix then a.inputProblems ix else []) ++ (if a.attempts ix then [] else a.inputProblems ix)
      = a.inputProblems ix := by
    intro ix
    cases a.attempts ix <;> simp
  show ((e.afterBlocks.diagnostics ++ e.afterBuses.diagnostics ++ (e.afterLink.diagnostics ++ e.unverified)).filter _).Perm _
  rw [List.filter_append, List.filter_append, List.filter_append, a.filter_afterBlocks, hbuses, hlink, hunverified, List.append_nil,
    List.append_assoc]
  refine (List.perm_append_comm.append_left _).trans ?_
  rw [← List.append_assoc]
  refine List.Perm.append_right _ (((horder.flatMap_right _).append_right _).trans ?_)
  exact (List.flatMap_append_perm ixs _ _).trans (.of_eq (List.flatMap_congr fun ix _ => hsplit ix))

/-- Only the lowering of a block that nothing is wrong with can fail. -/
theorem Analysis.failsDuly_emission {consts : Pool} {options : Options} {d : Diagnostic}
    (hd : d ∈ (a.emission consts options).diagnostics) : a.FailsDuly d := by
  intro hcode
  let e := a.emission consts options
  have hrefusal : d.isRefusal = true := by rw [Diagnostic.isRefusal, hcode, decide_eq_true rfl, Bool.or_true]
  have hpolicy : d.isPolicy = false := by rw [Diagnostic.isPolicy, hcode]; rfl
  rcases List.mem_append.1 hd with hd | hd
  · rcases List.mem_append.1 hd with hd | hd
    · have hblocks : a.emitBlocks.Says a.FailsDuly :=
        (Emit.says_build _).bind fun _ => (Emit.says_build _).bind fun slots =>
          ((Visit.says_lowerNodes (Visit.says_lowerBlock_failed slots) a.order {}).bind fun _ => .pure _).bind fun _ => .pure _
      exact hblocks.all _ d hd hcode
    · have hmem : d ∈ e.afterBuses.diagnostics.filter Diagnostic.isRefusal := List.mem_filter.2 ⟨hd, hrefusal⟩
      rw [a.filter_afterBuses] at hmem
      obtain ⟨x, -, hproblem⟩ := List.mem_filterMap.1 hmem
      cases hpolicy.symm.trans (of_busProblem? hproblem).1
  · rcases List.mem_append.1 hd with hd | hd
    · have hmem : d ∈ e.afterLink.diagnostics.filter Diagnostic.isRefusal := List.mem_filter.2 ⟨hd, hrefusal⟩
      rw [a.filter_afterLink] at hmem
      obtain ⟨ix, -, hd⟩ := List.mem_flatMap.1 hmem
      split at hd
      · cases hd
      · cases hpolicy.symm.trans (of_mem_inputProblems hd).1
    · unfold Emission.unverified at hd
      split at hd
      · cases hd
      · rw [List.mem_singleton.1 hd] at hcode
        cases hcode

end PatchGraph
