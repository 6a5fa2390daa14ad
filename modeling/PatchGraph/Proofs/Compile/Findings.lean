import PatchGraph.Compile.Pipeline

/-!
# What a compilation can say

The stages that check a patch say nothing but why they refuse it (`Refusal`), each with codes of its own (`RefusedBy`), and they name the
part of the patch that they look at (`RefusalsAt`). The errors of the later stages are listed in `Finding`, one case for each place that
reports one, and those about the policies of ports and buses are told by `Complaint`; a diagnostic is never taken back (`Emit.Says`).
Apart from errors they only say which buses are silent (`Remark`), and they never speak of the verification. Only the last step of
linking has regard to the options (`run_link`).
-/

namespace PatchGraph

/-! ## Checks -/

/-- The codes of what a patch is refused for. -/
def checkCodes : List DiagCode :=
  [.unreadableType, .busIneligible, .reservedBus, .noConversion, .unknownBlockType, .unknownTransform, .noTimeRoot,
    .severalTimeRoots, .badTimeRoot, .danglingPort, .danglingBus, .illegalCycle]

/-- A diagnostic whose code is in a list has no code outside of it. -/
theorem Diagnostic.code_ne_of_not_mem {codes : List DiagCode} {c : DiagCode} (d : Diagnostic)
    (h : ∃ c ∈ codes, d.code = some c) (hc : c ∉ codes) : d.code ≠ some c := by
  obtain ⟨c', hc', hcode⟩ := h
  rw [hcode]
  rintro ⟨⟩
  exact hc hc'

/-- What a check says of a patch that it refuses. -/
structure Refusal (d : Diagnostic) : Prop where
  isError : d.isError = true
  code : ∃ c ∈ checkCodes, d.code = some c

/-- A check never speaks of the verification. -/
theorem Refusal.ne_unverified {d : Diagnostic} (h : Refusal d) : d.code ≠ some .unverified :=
  d.code_ne_of_not_mem h.code (by decide)

/-- Diagnostics that are all refusals. -/
def Refusals (ds : List Diagnostic) : Prop := ∀ d ∈ ds, Refusal d

namespace Refusals

/-- Refusals that are no errors are not there. -/
theorem eq_nil {ds : List Diagnostic} (h : Refusals ds) (hnone : hasErrors ds = false) : ds = [] := by
  cases ds with
  | nil => rfl
  | cons d rest =>
    have hd := (h d List.mem_cons_self).isError
    simp [hasErrors, hd] at hnone

end Refusals

/-- The check that a code belongs to. The codes of what is said later belong to none. -/
def DiagCode.check? : DiagCode → Option Stage
  | .unreadableType | .busIneligible | .reservedBus | .noConversion | .unknownBlockType | .unknownTransform => some .typeGraph
  | .noTimeRoot | .severalTimeRoots | .badTimeRoot => some .timeTopology
  | .danglingPort | .danglingBus => some .depGraph
  | .illegalCycle => some .cycleCheck
  | .missingInput | .missingOutput | .unsupportedAdapter | .unsupportedLens | .busFailed | .stateInPureBlock | .combineNotAllowed
  | .severalWriters | .blockFailed | .silentBus | .unverified => none

/-- What a check says: an error with a code of its own. -/
structure RefusedBy (s : Stage) (d : Diagnostic) : Prop where
  isError : d.isError = true
  code : ∃ c, d.code = some c ∧ c.check? = some s

/-- A code that belongs to some check is a code of the checks. -/
theorem DiagCode.mem_checkCodes {c : DiagCode} (h : c.check? ≠ none) : c ∈ checkCodes := by
  cases c with
  | missingInput | missingOutput | unsupportedAdapter | unsupportedLens | busFailed | stateInPureBlock | combineNotAllowed
  | severalWriters | blockFailed | silentBus | unverified => exact absurd rfl h
  | _ => decide

/-- What one check refuses is refused by the checks. -/
theorem RefusedBy.refusal {s : Stage} {d : Diagnostic} (h : RefusedBy s d) : Refusal d := by
  obtain ⟨c, hcode, hc⟩ := h.code
  exact ⟨h.isError, c, c.mem_checkCodes (hc ▸ Option.some_ne_none s), hcode⟩

/-- Diagnostics that are all of one check. -/
def RefusalsBy (s : Stage) (ds : List Diagnostic) : Prop := ∀ d ∈ ds, RefusedBy s d

/-- A list of refusals of one stage is a list of refusals. -/
theorem RefusalsBy.refusals {s : Stage} {ds : List Diagnostic} (h : RefusalsBy s ds) : Refusals ds := fun d hd => (h d hd).refusal

/-- Diagnostics that are all of one check, and all about something of a kind. -/
def RefusalsAt (s : Stage) (P : Locator → Prop) (ds : List Diagnostic) : Prop := ∀ d ∈ ds, RefusedBy s d ∧ P d.locator

namespace RefusalsAt

variable {s : Stage} {P : Locator → Prop}

/-- A check that says nothing names nothing. -/
theorem nil : RefusalsAt s P [] := fun _ h => absurd h List.not_mem_nil

/-- One refusal of a stage that names an allowed part of the patch. -/
theorem single {d : Diagnostic} (h : RefusedBy s d) (hP : P d.locator) : RefusalsAt s P [d] := List.forall_mem_singleton.2 ⟨h, hP⟩

/-- Refusals of a stage one after the other. -/
theorem append {ds es : List Diagnostic} (hd : RefusalsAt s P ds) (he : RefusalsAt s P es) : RefusalsAt s P (ds ++ es) :=
  List.forall_mem_append.2 ⟨hd, he⟩

/-- Refusals of a stage that are collected over a list. -/
theorem flatMap {α : Type} {xs : List α} {f : α → List Diagnostic} (h : ∀ x ∈ xs, RefusalsAt s P (f x)) :
    RefusalsAt s P (xs.flatMap f) := by
  intro d hd
  obtain ⟨x, hx, hd⟩ := List.mem_flatMap.1 hd
  exact h x hx d hd

/-- Refusals of a stage, whatever part of the patch they name. -/
theorem refusalsBy {ds : List Diagnostic} (h : RefusalsAt s P ds) : RefusalsBy s ds := fun d hd => (h d hd).1

end RefusalsAt

/-! ### What the checks name -/

/-- A type declares a port, as an input or as an output. -/
def BlockDecl.Declares (d : BlockDecl) (port : String) : Prop := (∃ i ∈ d.inputs, i.id = port) ∨ ∃ o ∈ d.outputs, o.id = port

/-- A locator names a part of a patch: a block, a port that the type of its block declares, an edge or a bus. -/
def Normalized.Names (n : Normalized) (r : Registry) : Locator → Prop
  | .patch => False
  | .block id => ∃ b ∈ n.blocks, b.id = id
  | .port owner port => ∃ b ∈ n.blocks, b.id = owner ∧ ∃ d, r.decl? b.type = some d ∧ d.Declares port
  | .edge id => ∃ e ∈ n.edges, e.id = id
  | .bus id => ∃ b ∈ n.buses, b.id = id

/-- A block stands in the list of placed blocks with the place it is found at. -/
theorem Normalized.mem_placedBlocks {n : Normalized} {ix : BlockIx} {b : Block} : (ix, b) ∈ n.placedBlocks ↔ n.block? ix = some b := by
  constructor
  · intro h
    obtain ⟨⟨x, i⟩, hx, heq⟩ := List.mem_map.1 h
    obtain ⟨rfl, rfl⟩ := Prod.mk.inj heq
    exact List.mem_zipIdx_iff_getElem?.1 hx
  · intro h
    exact List.mem_map.2 ⟨(b, ix.index), List.mem_zipIdx_iff_getElem?.2 h, rfl⟩

namespace Typing

variable {P : Locator → Prop}

/-- A type text that cannot be parsed is refused where it is written. -/
theorem refusalsAt_typeDiagnostics {locator : Locator} (h : P locator) (text : String) :
    RefusalsAt .typeGraph P (typeDiagnostics locator text) := by
  unfold typeDiagnostics
  split
  · exact .nil
  · exact .single ⟨rfl, _, rfl, rfl⟩ h

/-- The check of a block names the block or one of the ports of its type. -/
theorem refusalsAt_blockDiagnostics {n : Normalized} (r : Registry) {b : Block} (hb : b ∈ n.blocks) :
    RefusalsAt .typeGraph (n.Names r) (blockDiagnostics r b) := by
  unfold blockDiagnostics
  split
  · exact .single ⟨rfl, _, rfl, rfl⟩ ⟨b, hb, rfl⟩
  · rename_i d hd
    refine .append (.flatMap fun i hi => ?_) (.flatMap fun o ho => ?_)
    · exact refusalsAt_typeDiagnostics ⟨b, hb, rfl, d, hd, .inl ⟨i, hi, rfl⟩⟩ i.type
    · exact refusalsAt_typeDiagnostics ⟨b, hb, rfl, d, hd, .inr ⟨o, ho, rfl⟩⟩ o.type

/-- What is wrong with the type of a bus is said of the bus. -/
theorem refusalsAt_busDiagnostics {b : Bus} (h : P (.bus b.id)) : RefusalsAt .typeGraph P (busDiagnostics b) := by
  unfold busDiagnostics
  split
  · exact .single ⟨rfl, _, rfl, rfl⟩ h
  · refine .append ?_ ?_
    · split
      · exact .nil
      · exact .single ⟨rfl, _, rfl, rfl⟩ h
    · split
      · exact .nil
      · split
        · exact .nil
        · exact .single ⟨rfl, _, rfl, rfl⟩ h

/-- What is wrong with the steps of an edge is said of the edge. -/
theorem refusalsAt_stepDiagnostics (r : Registry) {e : Edge} (h : P (.edge e.id)) : RefusalsAt .typeGraph P (stepDiagnostics r e) := by
  have hunknown : ∀ (kind : TransformKind) (word : String) (steps : List Step), RefusalsAt .typeGraph P (steps.filterMap fun s =>
      if (r.transform? kind s.id).isSome then none
      else some (.error .unknownTransform (.edge e.id) s!"unknown {word} '{s.id}'")) := by
    intro kind word steps d hd
    obtain ⟨s, -, hs⟩ := List.mem_filterMap.1 hd
    split at hs
    · cases hs
    · obtain rfl := Option.some.inj hs
      exact ⟨⟨rfl, _, rfl, rfl⟩, h⟩
  exact .append (hunknown .adapter "adapter" e.adapters) (hunknown .lens "lens" e.lenses)

/-- That two types cannot be converted is said of the edge between them. -/
theorem refusalsAt_noConversion {e : Edge} (h : P (.edge e.id)) (source adapted target : ValueType) :
    RefusalsAt .typeGraph P [noConversion e source adapted target] := by
  unfold noConversion
  dsimp only
  split <;> exact .single ⟨rfl, _, rfl, rfl⟩ h

/-- What is wrong with the types of an edge is said of the edge. -/
theorem refusalsAt_edgeDiagnostics (n : Normalized) (r : Registry) (t : TypeTable) {e : Edge} (h : P (.edge e.id)) :
    RefusalsAt .typeGraph P (edgeDiagnostics n r t e) := by
  unfold edgeDiagnostics
  split
  · exact .nil
  · dsimp only
    split
    · split
      · exact .nil
      · exact refusalsAt_noConversion h _ _ _
    · exact refusalsAt_stepDiagnostics r h

end Typing

/-- The check of types names only parts of the patch. -/
theorem Normalized.refusalsAt_typeDiagnostics (n : Normalized) (r : Registry) :
    RefusalsAt .typeGraph (n.Names r) (n.typeDiagnostics r) := by
  refine .append (.append (.flatMap fun b hb => ?_) (.flatMap fun b hb => ?_)) (.flatMap fun e he => ?_)
  · exact Typing.refusalsAt_blockDiagnostics r hb
  · exact Typing.refusalsAt_busDiagnostics ⟨b, hb, rfl⟩
  · exact Typing.refusalsAt_edgeDiagnostics n r _ ⟨e, he, rfl⟩

/-- A time root is a block of the patch. -/
theorem Time.mem_blocks_of_mem_roots {n : Normalized} {r : Registry} {x : BlockIx × Block × TimeRootKind} (h : x ∈ roots n r) :
    x.2.1 ∈ n.blocks := by
  obtain ⟨⟨ix, b⟩, hb, hx⟩ := List.mem_filterMap.1 h
  obtain ⟨kind, -, rfl⟩ := Option.map_eq_some_iff.1 hx
  exact List.mem_of_getElem? (Normalized.mem_placedBlocks.1 hb)

/-- A patch without a time root is named as a whole, otherwise one of the roots is. -/
theorem Time.refusedBy_of_resolve {n : Normalized} {r : Registry} {d : Diagnostic} (h : Time.resolve n r = .error d) :
    RefusedBy .timeTopology d ∧ (n.Names r d.locator ∨ d.locator = .patch ∧ d.code = some .noTimeRoot) := by
  unfold Time.resolve at h
  split at h
  · obtain rfl := Except.error.inj h
    exact ⟨⟨rfl, _, rfl, rfl⟩, .inr ⟨rfl, rfl⟩⟩
  · rename_i ix b kind hroots
    have hb : b ∈ n.blocks := mem_blocks_of_mem_roots (hroots ▸ List.mem_singleton_self (ix, b, kind))
    split at h
    · cases h
    · obtain rfl := Except.error.inj h
      exact ⟨⟨rfl, _, rfl, rfl⟩, .inl ⟨b, hb, rfl⟩⟩
  · rename_i ix b kind rest _ hroots
    have hb : b ∈ n.blocks := mem_blocks_of_mem_roots (hroots ▸ List.mem_cons_self (a := (ix, b, kind)))
    obtain rfl := Except.error.inj h
    exact ⟨⟨rfl, _, rfl, rfl⟩, .inl ⟨b, hb, rfl⟩⟩

/-- An end that does not exist is refused at its edge. -/
theorem Normalized.refusalsAt_endDiagnostics {P : Locator → Prop} (n : Normalized) (r : Registry) {edge : String} (h : P (.edge edge))
    (side : Side) (e : Endpoint) : RefusalsAt .depGraph P (n.endDiagnostics r edge side e) := by
  unfold endDiagnostics
  split
  · exact .nil
  · rename_i p _
    cases p <;> exact .single ⟨rfl, _, rfl, rfl⟩ h

/-- The check of ends names only parts of the patch. -/
theorem Normalized.refusalsAt_dependencyDiagnostics (n : Normalized) (r : Registry) :
    RefusalsAt .depGraph (n.Names r) (n.dependencyDiagnostics r) := by
  refine .flatMap fun e he => ?_
  have hnames : n.Names r (.edge e.id) := ⟨e, he, rfl⟩
  unfold linkDiagnostics
  split
  · exact .single ⟨rfl, _, rfl, rfl⟩ hnames
  · exact .append (n.refusalsAt_endDiagnostics r hnames _ _) (n.refusalsAt_endDiagnostics r hnames _ _)

/-- The check of cycles has a code of its own. -/
theorem DependencyGraph.refusedBy_cycleDiagnostics (g : DependencyGraph) (n : Normalized) (r : Registry) :
    RefusalsBy .cycleCheck (g.cycleDiagnostics n r) := by
  intro d hd
  obtain ⟨c, -, rfl⟩ := List.mem_map.1 hd
  exact ⟨rfl, _, rfl, rfl⟩

/-! ## Findings -/

/-- An input that the type of a block declares. -/
def Analysis.Declares (a : Analysis) (ix : BlockIx) (input : InputDecl) : Prop :=
  ∃ decl, a.patch.decl? a.registry ix = some decl ∧ input ∈ decl.inputs

/-- An error that is found while the program of a patch is emitted. -/
inductive Finding (a : Analysis) : Diagnostic → Prop where
  | step {w : Writer} {edge : Edge} (e : ChainError) (h : a.edge? w = some edge) : Finding a (e.diagnostic edge)
  | inputPolicy {ix : BlockIx} {input : InputDecl} {t : ValueType} {p : CombinePolicy} {ws : List Writer} {d : Diagnostic}
    (declared : a.Declares ix input) (h : policyProblem? t p ws (.port (a.patch.blockId ix) input.id) = some d) : Finding a d
  | missingInput {ix : BlockIx} {input : InputDecl} (declared : a.Declares ix input) :
    Finding a (Visit.missingInput (a.patch.blockId ix) input.id)
  | stateInPureBlock {ix : BlockIx} {b : Block} (h : a.patch.block? ix = some b) : Finding a (Visit.stateInPureBlock b)
  | blockFailed {ix : BlockIx} {b : Block} (e : LowerError) (h : a.patch.block? ix = some b) : Finding a (Visit.blockFailed b e)
  | busPolicy {b : Bus} {t : ValueType} {ws : List Writer} {d : Diagnostic} (hb : b ∈ a.patch.buses)
    (h : BusValue.policyProblem? b t ws = some d) : Finding a d
  | publisherFailed {b : Bus} (edge : Edge) (e : ChainError) (hb : b ∈ a.patch.buses) :
    Finding a (BusValue.publisherFailed b edge e)
  | noValue {b : Bus} (t : ValueType) (hb : b ∈ a.patch.buses) : Finding a (BusValue.noValue b t)
  | unboundForward {f : ForwardSlot} {t : ValueType} (h : a.types.outputType? f.block f.port = some t) :
    Finding a (Linking.unboundForward (a.patch.blockId f.block) f.port)
  | unregistered {ix : BlockIx} {b : Block} {ports : PortTypes} {port : String} {t : ValueType} (h : a.patch.block? ix = some b)
    (hports : a.types.ports? ix = some ports) (hport : (port, some t) ∈ ports.outputs) :
    Finding a (Linking.unregistered b.id port t)

/-- What is said while the program of a patch is emitted: errors, and which buses have no publishers. -/
inductive Remark (a : Analysis) (options : Options) : Diagnostic → Prop where
  | finding {d : Diagnostic} (h : Finding a d) : Remark a options d
  | silentBus {b : Bus} (hb : b ∈ a.patch.buses) : Remark a options (Linking.silentBus options b.id)

/-- The codes of what is said while a program is emitted. -/
def emissionCodes : List DiagCode :=
  [.missingInput, .missingOutput, .unsupportedAdapter, .unsupportedLens, .busFailed, .stateInPureBlock, .combineNotAllowed,
    .severalWriters, .blockFailed, .silentBus]

/-- What the policy of a port or bus of a type is reported for: its mode, or else the number of its writers. -/
def ValueType.complaint? (t : ValueType) (mode : CombineMode) (writers : Nat) : Option DiagCode :=
  if !t.allows mode then some .combineNotAllowed else if mode = .error ∧ 1 < writers then some .severalWriters else none

namespace ValueType

variable {t : ValueType} {mode : CombineMode} {writers : Nat}

/-- The mode is complained about if the type does not allow it. -/
theorem complaint?_eq_mode : t.complaint? mode writers = some .combineNotAllowed ↔ t.allows mode = false := by
  unfold complaint?
  cases t.allows mode with
  | false => simp
  | true => by_cases h : mode = .error ∧ 1 < writers <;> simp [h]

/-- The number of writers is complained about if the mode is allowed and admits a single one. -/
theorem complaint?_eq_writers :
    t.complaint? mode writers = some .severalWriters ↔ t.allows mode = true ∧ mode = .error ∧ 1 < writers := by
  unfold complaint?
  cases t.allows mode with
  | false => simp
  | true => by_cases h : mode = .error ∧ 1 < writers <;> simp [h]

/-- There is no complaint if the mode is allowed and the writers are not too many for it. -/
theorem complaint?_eq_none : t.complaint? mode writers = none ↔ t.allows mode = true ∧ ¬(mode = .error ∧ 1 < writers) := by
  unfold complaint?
  cases t.allows mode with
  | false => simp
  | true => by_cases h : mode = .error ∧ 1 < writers <;> simp [h]

end ValueType

/-- What is said of the policy of a port or bus that cannot be kept: one error, about the port or bus, with the code of the complaint. -/
structure Complaint (t : ValueType) (mode : CombineMode) (writers : Nat) (locator : Locator) (d : Diagnostic) : Prop where
  isError : d.isError = true
  about : d.locator = locator
  code : (t.complaint? mode writers = some .combineNotAllowed ∧ d.code = some .combineNotAllowed)
    ∨ (t.complaint? mode writers = some .severalWriters ∧ d.code = some .severalWriters)

/-- A check of a policy that reports a mode that is not allowed, or else several writers. -/
theorem Complaint.of_ite {t : ValueType} {mode : CombineMode} {writers : Nat} {locator : Locator} {unsuited several d : Diagnostic}
    (hunsuited : unsuited.isError = true ∧ unsuited.locator = locator ∧ unsuited.code = some .combineNotAllowed)
    (hseveral : several.isError = true ∧ several.locator = locator ∧ several.code = some .severalWriters)
    (h : (if !t.allows mode then some unsuited else if mode = .error ∧ 1 < writers then some several else none) = some d) :
    Complaint t mode writers locator d := by
  split at h
  case isTrue hmode =>
    obtain rfl := Option.some.inj h
    obtain ⟨herror, hlocator, hcode⟩ := hunsuited
    exact ⟨herror, hlocator, .inl ⟨if_pos hmode, hcode⟩⟩
  case isFalse hmode =>
    split at h
    case isTrue hwriters =>
      obtain rfl := Option.some.inj h
      obtain ⟨herror, hlocator, hcode⟩ := hseveral
      exact ⟨herror, hlocator, .inr ⟨(if_neg hmode).trans (if_pos hwriters), hcode⟩⟩
    case isFalse => cases h

/-- A policy without a complaint passes such a check. -/
theorem ValueType.ite_eq_none_iff {t : ValueType} {mode : CombineMode} {writers : Nat} {unsuited several : Diagnostic} :
    (if !t.allows mode then some unsuited else if mode = .error ∧ 1 < writers then some several else none) = none
      ↔ t.complaint? mode writers = none := by
  unfold complaint?
  split
  · simp
  · split <;> simp

/-- What is wrong with the policy of a port is a complaint about its mode and its writers. -/
theorem complaint_of_policyProblem {t : ValueType} {p : CombinePolicy} {ws : List Writer} {locator : Locator} {d : Diagnostic}
    (h : policyProblem? t p ws locator = some d) : Complaint t p.mode ws.length locator d :=
  .of_ite ⟨rfl, rfl, rfl⟩ ⟨rfl, rfl, rfl⟩ h

/-- Nothing is wrong with the policy of a port if and only if there is no complaint. -/
theorem policyProblem?_eq_none_iff {t : ValueType} {p : CombinePolicy} {ws : List Writer} {locator : Locator} :
    policyProblem? t p ws locator = none ↔ t.complaint? p.mode ws.length = none :=
  ValueType.ite_eq_none_iff

/-- What is wrong with the policy of a bus is a complaint about its mode and its publishers. -/
theorem BusValue.complaint_of_policyProblem {b : Bus} {t : ValueType} {ws : List Writer} {d : Diagnostic}
    (h : policyProblem? b t ws = some d) : Complaint t b.combine ws.length (.bus b.id) d :=
  .of_ite ⟨rfl, rfl, rfl⟩ ⟨rfl, rfl, rfl⟩ h

/-- Nothing is wrong with the policy of a bus if and only if there is no complaint. -/
theorem BusValue.policyProblem?_eq_none_iff {b : Bus} {t : ValueType} {ws : List Writer} :
    policyProblem? b t ws = none ↔ t.complaint? b.combine ws.length = none :=
  ValueType.ite_eq_none_iff

/-- A complaint has a code of the later stages. -/
theorem Complaint.code_mem {t : ValueType} {mode : CombineMode} {writers : Nat} {locator : Locator} {d : Diagnostic}
    (h : Complaint t mode writers locator d) : ∃ c ∈ emissionCodes, d.code = some c := by
  rcases h.code with ⟨-, hcode⟩ | ⟨-, hcode⟩
  · exact ⟨.combineNotAllowed, by decide, hcode⟩
  · exact ⟨.severalWriters, by decide, hcode⟩

/-- All findings are errors. -/
theorem Finding.isError {a : Analysis} {d : Diagnostic} (h : Finding a d) : d.isError = true := by
  cases h with
  | inputPolicy _ h => exact (complaint_of_policyProblem h).isError
  | busPolicy _ h => exact (BusValue.complaint_of_policyProblem h).isError
  | _ => rfl

/-- A finding has a code of the later stages. -/
theorem Finding.code {a : Analysis} {d : Diagnostic} (h : Finding a d) : ∃ c ∈ emissionCodes, d.code = some c := by
  cases h with
  | step e _ =>
    obtain ⟨_ | _, _⟩ := e
    · exact ⟨.unsupportedAdapter, by decide, rfl⟩
    · exact ⟨.unsupportedLens, by decide, rfl⟩
  | inputPolicy _ h => exact (complaint_of_policyProblem h).code_mem
  | missingInput => exact ⟨.missingInput, by decide, rfl⟩
  | stateInPureBlock => exact ⟨.stateInPureBlock, by decide, rfl⟩
  | blockFailed => exact ⟨.blockFailed, by decide, rfl⟩
  | busPolicy _ h => exact (BusValue.complaint_of_policyProblem h).code_mem
  | publisherFailed => exact ⟨.busFailed, by decide, rfl⟩
  | noValue => exact ⟨.busFailed, by decide, rfl⟩
  | unboundForward => exact ⟨.missingOutput, by decide, rfl⟩
  | unregistered => exact ⟨.missingOutput, by decide, rfl⟩

namespace Remark

variable {a : Analysis} {options : Options} {d : Diagnostic}

/-- A remark has a code of the later stages. -/
theorem code (h : Remark a options d) : ∃ c ∈ emissionCodes, d.code = some c := by
  cases h with
  | finding h => exact h.code
  | silentBus => exact ⟨.silentBus, by decide, rfl⟩

theorem ne_unverified (h : Remark a options d) : d.code ≠ some .unverified := d.code_ne_of_not_mem h.code (by decide)

end Remark

/-! ## What is said stays said -/

namespace Emit

variable {α β : Type}

/-- A step of emitting only adds diagnostics, all of a kind. -/
def Says (m : Emit α) (P : Diagnostic → Prop) : Prop :=
  ∀ w, ∃ ds, (m.run w).2.diagnostics = w.diagnostics ++ ds ∧ ∀ d ∈ ds, P d

variable {P : Diagnostic → Prop}

/-- What was said before is still said after. -/
theorem Says.mem {m : Emit α} {w : Workbench} {d : Diagnostic} (h : m.Says P) (hd : d ∈ w.diagnostics) :
    d ∈ (m.run w).2.diagnostics := by
  obtain ⟨ds, heq, -⟩ := h w
  rw [heq]
  exact List.mem_append_left _ hd

/-- All that a step says when nothing was said before. -/
theorem Says.all {m : Emit α} (h : m.Says P) (b : Builder) : ∀ d ∈ (m.run { builder := b }).2.diagnostics, P d := by
  obtain ⟨ds, heq, hds⟩ := h { builder := b }
  rwa [heq]

/-- A step that leaves the diagnostics as they are says nothing. -/
theorem Says.silent {m : Emit α} (h : ∀ w, (m.run w).2.diagnostics = w.diagnostics) : m.Says P :=
  fun w => ⟨[], by rw [h, List.append_nil], fun _ hd => absurd hd List.not_mem_nil⟩

theorem Says.pure (x : α) : Says (pure x) P := .silent fun _ => rfl

/-- Building says nothing. -/
theorem says_build (step : Build α) : (build step).Says P := .silent fun _ => rfl

/-- A report says what it reports. -/
theorem says_report {d : Diagnostic} (h : P d) : (report d).Says P :=
  fun _ => ⟨[d], rfl, List.forall_mem_singleton.2 h⟩

/-- Two steps say what either of them says. -/
theorem Says.bind {m : Emit α} {f : α → Emit β} (h : m.Says P) (hf : ∀ x, (f x).Says P) : (m >>= f).Says P := by
  intro w
  obtain ⟨ds, heq, hds⟩ := h w
  obtain ⟨es, heq', hes⟩ := hf (m.run w).1 (m.run w).2
  refine ⟨ds ++ es, ?_, List.forall_mem_append.2 ⟨hds, hes⟩⟩
  rw [← List.append_assoc, ← heq]
  exact heq'

end Emit

variable {a : Analysis}

/-- Where the steps of an edge fail, what is said is about that edge. -/
theorem says_finishTerm {P : Diagnostic → Prop} (hstep : ∀ {w edge} (e : ChainError), a.edge? w = some edge → P (e.diagnostic edge))
    (w : Writer) (t : ValueType) (v : ValueRef) : (finishTerm a.registry (a.edge? w) t v).Says P := by
  cases h : a.edge? w with
  | none => exact Emit.says_build _
  | some e =>
    refine (Emit.says_build _).bind fun r => ?_
    cases r with
    | ok x => exact Emit.says_build _
    | error err => exact (Emit.says_report (hstep err h)).bind fun _ => .pure none

/-! ### Blocks -/

namespace Visit

variable {α β : Type} {P : Diagnostic → Prop}

/-- A step of lowering blocks only adds diagnostics, all of a kind. -/
def Says (m : Visit α) (P : Diagnostic → Prop) : Prop := ∀ v, Emit.Says (m.run v) P

/-- A visit that does nothing says nothing. -/
theorem Says.pure (x : α) : Says (pure x) P := fun v => Emit.Says.pure (x, v)

theorem Says.bind {m : Visit α} {f : α → Visit β} (h : m.Says P) (hf : ∀ x, (f x).Says P) : (m >>= f).Says P :=
  fun v => (h v).bind fun r => hf r.1 r.2

/-- A visit says what the step in it says. -/
theorem Says.lift {m : Emit α} (h : m.Says P) : Says (liftM m : Visit α) P := fun v => h.bind fun x => .pure (x, v)

theorem Says.get : Says (get : Visit Visited) P := fun v => Emit.Says.pure (v, v)

/-- To change what was visited says nothing. -/
theorem Says.modify (f : Visited → Visited) : Says (modify f : Visit Unit) P := fun v => Emit.Says.pure ((), f v)

theorem says_build (step : Build α) : (build step).Says P := .lift (Emit.says_build step)

theorem says_report {d : Diagnostic} (h : P d) : (report d).Says P := .lift (Emit.says_report h)

/-- To reserve a slot says nothing. -/
theorem says_forward (b : BlockIx) (port : String) (t : ValueType) : (forward b port t).Says P :=
  (says_build _).bind fun _ => (Says.modify _).bind fun _ => says_build _

/-- To find the output of a block says nothing, even if a slot has to be reserved for it. -/
theorem says_sourceOutput (b : BlockIx) (port : String) : (sourceOutput a b port).Says P := by
  refine Says.get.bind fun v => ?_
  split
  · exact .pure _
  · split
    · exact says_build _
    · split
      · exact .pure _
      · split
        · exact says_forward b port _
        · exact .pure _

/-- To find the value of a writer says nothing. -/
theorem says_source (slots : BusSlots) (t : ValueType) (w : Writer) : (source a slots t w).Says P := by
  cases w with
  | wire edge edgeId b port => exact says_sourceOutput b port
  | bus edge edgeId b => exact says_build _
  | fallback id c => exact .pure _

section Inputs

variable (hstep : ∀ {w edge} (e : ChainError), a.edge? w = some edge → P (e.diagnostic edge))

include hstep

/-- Where a term fails, what is said is about the steps of its edge. -/
theorem says_term (slots : BusSlots) (t : ValueType) (w : Writer) : (term a slots t w).Says P := by
  refine (says_source slots t w).bind fun o => ?_
  cases o with
  | none => exact .pure none
  | some v => exact .lift (says_finishTerm hstep w t v)

/-- Where one of several terms fails, what is said is about the steps of its edge. -/
theorem says_terms (slots : BusSlots) (t : ValueType) (ws : List Writer) : (terms a slots t ws).Says P := by
  induction ws with
  | nil => exact .pure []
  | cons w rest ih => exact (says_term hstep slots t w).bind fun _ => ih.bind fun _ => .pure _

variable {ix : BlockIx} (hpolicy : ∀ {input t p ws d}, a.Declares ix input →
    policyProblem? t p ws (.port (a.patch.blockId ix) input.id) = some d → P d)
  (hmissing : ∀ {input}, a.Declares ix input → P (missingInput (a.patch.blockId ix) input.id))

include hpolicy hmissing

/-- To resolve an input of a block says why its policy does not fit, why a term fails, or that there is no value. -/
theorem says_resolveInput (slots : BusSlots) {input : InputDecl} (h : a.Declares ix input) :
    (resolveInput a slots ix input).Says P := by
  unfold resolveInput
  dsimp only
  cases a.types.inputType? ix input.id with
  | none => exact .pure _
  | some t =>
    dsimp only
    cases hp : policyProblem? t (input.combine.getD {}) (a.patch.writers ix input.id) (.port (a.patch.blockId ix) input.id) with
    | some d => exact (says_report (hpolicy h hp)).bind fun _ => .pure _
    | none =>
      dsimp only
      split
      · split
        · exact (says_report (hmissing h)).bind fun _ => .pure _
        · exact .pure _
      · refine (says_terms hstep slots t _).bind fun values => (says_build _).bind fun o => ?_
        cases o <;> exact .pure _

/-- To resolve the inputs of a block says what is said of each of them. -/
theorem says_resolveInputs (slots : BusSlots) {inputs : List InputDecl} (h : ∀ input ∈ inputs, a.Declares ix input)
    (done : Dict ValueRef) : (resolveInputs a slots ix inputs done).Says P := by
  induction inputs generalizing done with
  | nil => exact .pure _
  | cons input rest ih =>
    obtain ⟨hinput, hrest⟩ := List.forall_mem_cons.1 h
    refine (says_resolveInput hstep hpolicy hmissing slots hinput).bind fun res => ?_
    cases res with
    | unbound => exact ih hrest done
    | bound v => exact ih hrest _
    | rejected => exact (ih hrest done).bind fun _ => .pure none

end Inputs

section Lowerings

variable {b : Block} (hfailed : ∀ e, P (blockFailed b e))

include hfailed

/-- What is made of the result of a lowering says at most that the block failed. -/
theorem says_conclude (declared : List (String × Option ValueType)) (inputs : Dict ValueRef)
    (result : Except LowerError (Dict ValueRef)) : (conclude declared b inputs result).Says P := by
  cases result with
  | ok outputs => exact (says_build _).bind fun _ => .pure _
  | error e => exact (says_report (hfailed e)).bind fun _ => .pure _

/-- To run a lowering says at most that the block failed or that it has a state although it is pure. -/
theorem says_runLowering (hstate : P (stateInPureBlock b)) (decl : BlockDecl) (l : Lowering) (site : Site) (inputs : Dict ValueRef) :
    (runLowering decl l site b inputs).Says P := by
  refine (says_build _).bind fun before => (says_build _).bind fun result => (says_build _).bind fun after => ?_
  dsimp only
  split
  · exact (says_report hstate).bind fun _ => says_conclude hfailed site.outputs inputs result
  · exact says_conclude hfailed site.outputs inputs result

end Lowerings

/-- The declaration of a block is that of its entry in the registry. -/
theorem decl?_of_entry {ix : BlockIx} {entry : BlockEntry} (h : a.entry? ix = some entry) :
    a.patch.decl? a.registry ix = some entry.decl := by
  obtain ⟨b, hb, he⟩ := Option.bind_eq_some_iff.1 h
  simp only [Normalized.decl?, hb, Registry.decl?, he, Option.bind_some, Option.map_some]

/-- A block declares the inputs of its entry. -/
theorem declares_of_entry {ix : BlockIx} {entry : BlockEntry} (h : a.entry? ix = some entry) :
    ∀ input ∈ entry.decl.inputs, a.Declares ix input :=
  fun _ hinput => ⟨entry.decl, decl?_of_entry h, hinput⟩

/-- Whatever is said of a block is said of a step, a policy, an input without a value, a failure or a state. -/
theorem says_lowerBlock (hstep : ∀ {w edge} (e : ChainError), a.edge? w = some edge → P (e.diagnostic edge))
    (hpolicy : ∀ {ix input t p ws d}, a.Declares ix input →
      policyProblem? t p ws (.port (a.patch.blockId ix) input.id) = some d → P d)
    (hmissing : ∀ {ix input}, a.Declares ix input → P (missingInput (a.patch.blockId ix) input.id))
    (hfailed : ∀ {ix b} e, a.patch.block? ix = some b → P (blockFailed b e))
    (hstate : ∀ {ix b}, a.patch.block? ix = some b → P (stateInPureBlock b)) (slots : BusSlots) (ix : BlockIx) :
    (lowerBlock a slots ix).Says P := by
  unfold lowerBlock
  split
  · rename_i b entry l ports hb he _ _
    refine (says_resolveInputs hstep hpolicy hmissing slots (declares_of_entry he) {}).bind fun o => ?_
    cases o with
    | none => exact .pure _
    | some inputs => exact says_runLowering (hfailed · hb) (hstate hb) _ l _ inputs
  · exact .pure _

/-- While a block is lowered, nothing is said but what can be found. -/
theorem finds_lowerBlock (slots : BusSlots) (ix : BlockIx) : (lowerBlock a slots ix).Says (Finding a) :=
  says_lowerBlock .step .inputPolicy .missingInput .blockFailed .stateInPureBlock slots ix

/-- To lower nodes says what is said of each block. -/
theorem says_lowerNodes {slots : BusSlots} (h : ∀ ix, (lowerBlock a slots ix).Says P) (nodes : List Nat) :
    (lowerNodes a slots nodes).Says P := by
  induction nodes with
  | nil => exact .pure ()
  | cons u rest ih =>
    unfold lowerNodes
    split
    · exact ih
    · exact (h _).bind fun _ => (Says.modify _).bind fun _ => ih

end Visit

/-- To lower the blocks of a patch says findings only. -/
theorem says_lowerBlocks (slots : BusSlots) : (a.lowerBlocks slots).Says (Finding a) :=
  (Visit.says_lowerNodes (Visit.finds_lowerBlock slots) _ {}).bind fun _ => .pure _

/-! ### Buses -/

namespace BusValue

variable {l : Lowered} {b : Bus}

section Publishers

variable {P : Diagnostic → Prop} (hfailed : ∀ edge e, P (publisherFailed b edge e))

include hfailed

/-- Where the term of a publisher fails, what is said is about its edge. -/
theorem says_term (t : ValueType) (w : Writer) : (term a l b t w).Says P := by
  unfold term
  split
  · split
    · exact .pure _
    · refine (Emit.says_build _).bind fun r => ?_
      cases r with
      | ok x => exact (Emit.says_build _).bind fun _ => .pure _
      | error e => exact (Emit.says_report (hfailed _ e)).bind fun _ => .pure _
  · exact .pure _

/-- Where the terms of publishers fail, what is said is about their edges. -/
theorem says_terms (t : ValueType) (ws : List Writer) : (terms a l b t ws).Says P := by
  induction ws with
  | nil => exact .pure _
  | cons w rest ih => exact (says_term hfailed t w).bind fun _ => ih.bind fun _ => .pure _

variable {t : ValueType} (hvalue : P (noValue b t))

include hvalue

omit hfailed in
/-- To settle a bus says at most that it has no value. -/
theorem says_settle (slot : SlotId) (publishers : Nat) (values : List ValueRef) (failed : Bool) :
    (settle b t slot publishers values failed).Says P := by
  refine (Emit.says_build _).bind fun o => ?_
  cases o with
  | none => exact (Emit.says_report hvalue).bind fun _ => .pure _
  | some v =>
    dsimp only
    split
    · exact .pure _
    · exact (Emit.says_build _).bind fun _ => .pure _

/-- To fill the slot of a bus says which publishers fail, or that there is no value. -/
theorem says_fill (slot : SlotId) (publishers : List Writer) (failed : Bool) : (fill a l b t slot publishers failed).Says P := by
  unfold fill
  split
  · exact says_settle hvalue slot _ _ _
  · exact (says_terms hfailed t publishers).bind fun _ => says_settle hvalue slot _ _ _

/-- To supply a bus says what is said while its slot is filled. -/
theorem says_supply (slots : BusSlots) (ix : BusIx) (failed : Bool) : (supply a slots l ix b t failed).Says P := by
  unfold supply
  split
  · exact .pure _
  · exact says_fill hfailed hvalue _ _ _

end Publishers

/-- To lower a bus of the patch says findings only. -/
theorem says_lower (hb : b ∈ a.patch.buses) (slots : BusSlots) (ix : BusIx) : (lower a slots l ix b).Says (Finding a) := by
  have hsupply : ∀ t failed, (supply a slots l ix b t failed).Says (Finding a) := fun t failed =>
    says_supply (.publisherFailed · · hb) (.noValue t hb) slots ix failed
  unfold lower
  split
  · exact .pure _
  · split
    · exact hsupply _ _
    · exact (Emit.says_report (.busPolicy hb ‹_›)).bind fun _ => hsupply _ _

/-- To lower buses of the patch says findings only. -/
theorem says_lowerAll (slots : BusSlots) {buses : List (BusIx × Bus)} (h : ∀ x ∈ buses, x.2 ∈ a.patch.buses) :
    (lowerAll a slots l buses).Says (Finding a) := by
  induction buses with
  | nil => exact .pure _
  | cons x rest ih =>
    obtain ⟨hx, hrest⟩ := List.forall_mem_cons.1 h
    exact (says_lower hx slots x.1).bind fun _ => (ih hrest).bind fun _ => .pure _

end BusValue

/-- To lower all buses says findings only. -/
theorem says_lowerBuses (slots : BusSlots) (l : Lowered) : (a.lowerBuses slots l).Says (Finding a) := by
  refine BusValue.says_lowerAll slots fun x hx => ?_
  obtain ⟨⟨b, i⟩, hb, rfl⟩ := List.mem_map.1 hx
  exact (List.mem_zipIdx' hb).2 ▸ List.getElem_mem _

/-! ### Linking -/

namespace Linking

variable {l : Lowered}

/-- To bind reserved slots says at most which of them stay unbound. -/
theorem says_bindForwards {P : Diagnostic → Prop} {fs : List ForwardSlot}
    (h : ∀ f ∈ fs, P (unboundForward (a.patch.blockId f.block) f.port)) : (bindForwards a l fs).Says P := by
  induction fs with
  | nil => exact .pure ()
  | cons f rest ih =>
    obtain ⟨hf, hrest⟩ := List.forall_mem_cons.1 h
    unfold bindForwards
    dsimp only
    split
    · exact (Emit.says_build _).bind fun _ => ih hrest
    · exact (Emit.says_report hf).bind fun _ => ih hrest

/-- To find the value of a writer while linking says nothing. -/
theorem says_source {P : Diagnostic → Prop} (slots : BusSlots) (t : ValueType) (w : Writer) : (source slots l t w).Says P := by
  cases w with
  | wire edge edgeId b port => exact .pure _
  | bus edge edgeId b => exact Emit.says_build _
  | fallback id c => exact .pure _

/-- To find the first term that can be made says which edges before it fail. -/
theorem says_firstTerm {P : Diagnostic → Prop} (hstep : ∀ {w edge} (e : ChainError), a.edge? w = some edge → P (e.diagnostic edge))
    (slots : BusSlots) (t : ValueType) (ws : List Writer) : (firstTerm a slots l t ws).Says P := by
  induction ws with
  | nil => exact .pure none
  | cons w rest ih =>
    refine (says_source slots t w).bind fun o => ?_
    cases o with
    | none => exact ih
    | some v =>
      refine (says_finishTerm hstep w t v).bind fun o => ?_
      cases o with
      | none => exact ih
      | some x => exact .pure _

/-- To resolve an input while linking says findings only. -/
theorem says_resolveInput (slots : BusSlots) {ix : BlockIx} {input : InputDecl} (h : a.Declares ix input) :
    (resolveInput a slots l ix input).Says (Finding a) := by
  unfold resolveInput
  split
  · exact .pure none
  · dsimp only
    split
    · exact (Emit.says_report (.inputPolicy h ‹_›)).bind fun _ => .pure none
    · exact says_firstTerm .step slots _ _

/-- To resolve the inputs of a block while linking says findings only. -/
theorem says_resolveInputs (slots : BusSlots) {ix : BlockIx} {inputs : List InputDecl} (h : ∀ input ∈ inputs, a.Declares ix input)
    (done : Dict ValueRef) : (resolveInputs a slots l ix inputs done).Says (Finding a) := by
  induction inputs generalizing done with
  | nil => exact .pure done
  | cons input rest ih =>
    obtain ⟨hinput, hrest⟩ := List.forall_mem_cons.1 h
    refine (says_resolveInput slots hinput).bind fun o => ?_
    cases o with
    | none => exact ih hrest done
    | some v => exact ih hrest _

/-- To resolve all inputs of a block while linking says findings only. -/
theorem says_blockInputs (slots : BusSlots) (b : BlockIx) : (blockInputs a slots l b).Says (Finding a) := by
  unfold blockInputs
  split
  · exact .pure _
  · split
    · exact .pure _
    · rename_i d hd
      exact says_resolveInputs slots (fun input hinput => ⟨d, hd, hinput⟩) {}

/-- To resolve the inputs of all blocks while linking says findings only. -/
theorem says_allInputs (slots : BusSlots) (bs : List BlockIx) : (allInputs a slots l bs).Says (Finding a) := by
  induction bs with
  | nil => exact .pure []
  | cons b rest ih => exact (says_blockInputs slots b).bind fun _ => ih.bind fun _ => .pure _

/-- All that can be wrong with the outputs of lowered blocks is that one is not registered. -/
theorem exists_unregistered {builder : Builder} {d : Diagnostic} (h : d ∈ allOutputDiagnostics a l builder) :
    ∃ (ix : BlockIx) (b : Block) (ports : PortTypes) (port : String) (t : ValueType), a.patch.block? ix = some b
      ∧ a.types.ports? ix = some ports ∧ (port, some t) ∈ ports.outputs ∧ d = unregistered b.id port t := by
  obtain ⟨⟨ix, b⟩, hb, hd⟩ := List.mem_flatMap.1 h
  dsimp only at hd
  split at hd
  · rename_i outputs ports _ hports
    obtain ⟨⟨port, type⟩, hport, hd⟩ := List.mem_filterMap.1 hd
    cases type with
    | none => cases hd
    | some t =>
      dsimp only at hd
      split at hd
      · exact ⟨ix, b, ports, port, t, Normalized.mem_placedBlocks.1 hb, hports, hport, (Option.some.inj hd).symm⟩
      · cases hd
  · exact absurd hd List.not_mem_nil

/-- What is wrong with the outputs of blocks is a finding. -/
theorem finding_outputDiagnostics {builder : Builder} {d : Diagnostic} (h : d ∈ allOutputDiagnostics a l builder) : Finding a d := by
  obtain ⟨ix, b, ports, port, t, hb, hports, hport, rfl⟩ := exists_unregistered h
  exact .unregistered hb hports hport

/-- Of buses linking says only that they are silent. -/
theorem exists_silentBus {buses : List BusOutcome} {options : Options} {d : Diagnostic} (h : d ∈ busDiagnostics a buses options) :
    ∃ b ∈ a.patch.buses, d = silentBus options b.id := by
  obtain ⟨⟨b, o⟩, hb, hd⟩ := List.mem_filterMap.1 h
  dsimp only at hd
  split at hd
  · exact ⟨b, (List.of_mem_zip hb).1, (Option.some.inj hd).symm⟩
  · cases hd

/-- What linking says of buses is a remark. -/
theorem remark_busDiagnostics {buses : List BusOutcome} {options : Options} {d : Diagnostic}
    (h : d ∈ busDiagnostics a buses options) : Remark a options d := by
  obtain ⟨b, hb, rfl⟩ := exists_silentBus h
  exact .silentBus hb

end Linking

/-- Link all but the schedule: bind the slots that were reserved for outputs and resolve the inputs that are left. -/
def Analysis.linkInputs (a : Analysis) (slots : BusSlots) (l : Lowered) : Emit (List (Dict ValueRef)) := do
  Linking.bindForwards a l l.forwards
  Linking.allInputs a slots l (a.patch.placedBlocks.map (·.1))

/-- Linking says what it finds, and then which buses are silent. All else is the same with any options. -/
theorem run_link (slots : BusSlots) {l : Lowered} (hforwards : ∀ f ∈ l.forwards, ∃ t, a.types.outputType? f.block f.port = some t)
    (buses : List BusOutcome) (b : Builder) :
    ∃ linked builder ds, (∀ d ∈ ds, Finding a d) ∧ ∀ options,
      (a.link slots l buses options).run { builder := b } = (linked, ⟨builder, ds ++ Linking.busDiagnostics a buses options⟩) := by
  have hinputs : (a.linkInputs slots l).Says (Finding a) :=
    (Linking.says_bindForwards fun f hf => (hforwards f hf).elim fun _ ht => .unboundForward ht).bind fun _ =>
      Linking.says_allInputs slots _
  let w := ((a.linkInputs slots l).run { builder := b }).2
  let e := (a.link slots l buses {}).run { builder := b }
  refine ⟨e.1, e.2.builder, w.diagnostics ++ Linking.allOutputDiagnostics a l w.builder, ?_, fun options => rfl⟩
  exact List.forall_mem_append.2 ⟨hinputs.all b, fun d hd => Linking.finding_outputDiagnostics hd⟩

end PatchGraph
