import PatchGraph.Compile.Emit

/-!
# Lowered blocks

Blocks are lowered in the order of evaluation. The writers of each input are checked against its policy, taken to its type and
reduced to one value; then the lowering of the block's type makes its outputs. Inside a cycle a wire can start at a block that
comes later: it reads a slot that is reserved for that output.
-/

namespace PatchGraph

/-- What became of a block. -/
inductive BlockOutcome where
  /-- Its type is unknown or has no lowering. -/
  | skipped
  /-- An input has writers that its policy does not allow. -/
  | rejected
  /-- Its lowering failed. -/
  | failed (inputs : Dict ValueRef)
  | lowered (inputs outputs : Dict ValueRef)
  deriving DecidableEq

namespace BlockOutcome

/-- Whether the block has a lowering. -/
def attempted : BlockOutcome → Bool
  | .skipped => false
  | .rejected | .failed _ | .lowered _ _ => true

/-- The inputs that the block was lowered with. -/
def inputs : BlockOutcome → Dict ValueRef
  | .skipped | .rejected => {}
  | .failed inputs => inputs
  | .lowered inputs _ => inputs

/-- The outputs of a block that was lowered. -/
def outputs? : BlockOutcome → Option (Dict ValueRef)
  | .skipped | .rejected | .failed _ => none
  | .lowered _ outputs => some outputs

end BlockOutcome

/-- A slot that is read in place of an output that is not there yet. -/
structure ForwardSlot where
  slot : SlotId
  block : BlockIx
  port : String
  deriving DecidableEq

/-- The blocks of a patch after lowering, and the order of evaluation of all nodes. -/
structure Lowered where
  outcomes : List BlockOutcome
  forwards : List ForwardSlot
  order : List Nat
  deriving DecidableEq

namespace Lowered

/-- What became of a block. -/
def outcome (l : Lowered) (b : BlockIx) : BlockOutcome := (l.outcomes[b.index]?).getD .skipped

/-- The value of an output. -/
def output? (l : Lowered) (b : BlockIx) (port : String) : Option ValueRef :=
  (l.outcome b).outputs?.bind fun outputs => outputs.get? port

end Lowered

/-- The blocks lowered so far and the slots reserved for later ones. -/
structure Visited where
  outcomes : List (BlockIx × BlockOutcome) := []
  forwards : List ForwardSlot := []

/-- A step of lowering blocks. -/
abbrev Visit := StateT Visited Emit

namespace Visit

/-- A step of building. -/
def build {α : Type} (step : Build α) : Visit α := liftM (Emit.build step)

/-- Say something. -/
def report (d : Diagnostic) : Visit Unit := liftM (Emit.report d)

/-! ## Inputs -/

/-- Reserve a slot for an output that comes later, and read it. -/
def forward (b : BlockIx) (port : String) (t : ValueType) : Visit (Option ValueRef) := do
  let slot ← build (Build.reserve t)
  modify fun v => { v with forwards := v.forwards ++ [⟨slot, b, port⟩] }
  build (Build.readSlot slot)

/-- The value of an output: what its block made, or else a slot for it, if its block has a lowering and the output lives in a slot. -/
def sourceOutput (a : Analysis) (b : BlockIx) (port : String) : Visit (Option ValueRef) := do
  let v ← get
  match v.outcomes.lookup b with
  | some o => return o.outputs?.bind fun outputs => outputs.get? port
  | none =>
    match v.forwards.find? fun f => f.block = b ∧ f.port = port with
    | some f => build (Build.readSlot f.slot)
    | none =>
      match a.types.outputType? b port with
      | none => return none
      | some t => if (a.lowering? b).isSome ∧ t.isSlotted then forward b port t else return none

/-- The value that a writer starts from. -/
def source (a : Analysis) (slots : BusSlots) (t : ValueType) : Writer → Visit (Option ValueRef)
  | .wire _ _ b port => sourceOutput a b port
  | .bus _ _ b => build (readBus slots b)
  | .fallback _ c => return some (fallbackValue c t)

/-- The value that a writer gives to an input of a type. -/
def term (a : Analysis) (slots : BusSlots) (t : ValueType) (w : Writer) : Visit (Option ValueRef) := do
  match ← source a slots t w with
  | none => return none
  | some v => finishTerm a.registry (a.edge? w) t v

/-- The values that writers give to an input of a type; a writer without one is left out. -/
def terms (a : Analysis) (slots : BusSlots) (t : ValueType) : List Writer → Visit (List ValueRef)
  | [] => return []
  | w :: rest => do
    let first ← term a slots t w
    let more ← terms a slots t rest
    return first.toList ++ more

/-- What became of an input. -/
inductive Resolution where
  | unbound
  | rejected
  | bound (v : ValueRef)

/-- The diagnostic for an input without a writer. -/
def missingInput (block port : String) : Diagnostic :=
  (Diagnostic.error .missingInput (.port block port) s!"input '{block}.{port}' has no writer").withHint
    "connect a wire or bus, or declare a default"

/-- Resolve an input. -/
def resolveInput (a : Analysis) (slots : BusSlots) (b : BlockIx) (input : InputDecl) : Visit Resolution :=
  let id := a.patch.blockId b
  match a.types.inputType? b input.id with
  | none => return .unbound
  | some t => do
    let ws := a.patch.writers b input.id
    let policy := input.combine.getD {}
    match policyProblem? t policy ws (.port id input.id) with
    | some d =>
      report d
      return .rejected
    | none =>
      if ws.isEmpty then
        if !input.optional then report (missingInput id input.id)
        return .unbound
      else
        let values ← terms a slots t ws
        match ← build (Build.reduce t policy values) with
        | none => return .unbound
        | some v => return .bound v

/-- Resolve inputs in order; none if one of them is rejected. -/
def resolveInputs (a : Analysis) (slots : BusSlots) (b : BlockIx) :
    List InputDecl → Dict ValueRef → Visit (Option (Dict ValueRef))
  | [], done => return some done
  | input :: rest, done => do
    match ← resolveInput a slots b input with
    | .unbound => resolveInputs a slots b rest done
    | .bound v => resolveInputs a slots b rest (done.insert input.id v)
    | .rejected =>
      let _ ← resolveInputs a slots b rest done
      return none

/-! ## Blocks -/

/-- Give outputs that live in slots a slot of their own, where the lowering returned none. -/
def registerOutputs : List (String × Option ValueType) → Dict ValueRef → Build (Dict ValueRef)
  | [], outputs => return outputs
  | (_, none) :: rest, outputs => registerOutputs rest outputs
  | (port, some t) :: rest, outputs =>
    match outputs.get? port with
    | none => registerOutputs rest outputs
    | some v =>
      if t.isSlotted ∧ v.slot?.isNone then do
        match ← Build.coerce v t with
        | none => registerOutputs rest outputs
        | some w => registerOutputs rest (outputs.insert port w)
      else registerOutputs rest outputs

/-- The diagnostic for state in a block that is no state boundary. -/
def stateInPureBlock (b : Block) : Diagnostic :=
  (Diagnostic.error .stateInPureBlock (.block b.id)
    s!"block '{b.id}' ({b.type}) allocated state but is not a state boundary").withHint
      "declare the block type with stateBoundary: true"

/-- The diagnostic for a block whose lowering failed. -/
def blockFailed (b : Block) (e : LowerError) : Diagnostic :=
  (Diagnostic.error .blockFailed (.block b.id) s!"lowering of block '{b.id}' ({b.type}) failed").withCause
    e.message (some (.block b.id))

/-- What becomes of a block whose lowering gave a result. -/
def conclude (declared : List (String × Option ValueType)) (b : Block) (inputs : Dict ValueRef) :
    Except LowerError (Dict ValueRef) → Visit BlockOutcome
  | .ok outputs => do return .lowered inputs (← build (registerOutputs declared outputs))
  | .error e => do
    report (blockFailed b e)
    return .failed inputs

/-- Run the lowering of a block on resolved inputs. -/
def runLowering (decl : BlockDecl) (lowering : Lowering) (site : Site) (b : Block) (inputs : Dict ValueRef) :
    Visit BlockOutcome := do
  let before ← build (do return (← get).states.size)
  let result ← build (lowering.run site inputs).run
  let after ← build (do return (← get).states.size)
  if before < after ∧ !decl.stateBoundary then report (stateInPureBlock b)
  conclude site.outputs b inputs result

/-- Lower a block. -/
def lowerBlock (a : Analysis) (slots : BusSlots) (ix : BlockIx) : Visit BlockOutcome :=
  match a.patch.block? ix, a.entry? ix, a.lowering? ix, a.types.ports? ix with
  | some b, some entry, some lowering, some ports => do
    match ← resolveInputs a slots ix entry.decl.inputs {} with
    | none => return .rejected
    | some inputs =>
      runLowering entry.decl lowering ⟨ix, b.id, b.params, ports.outputs, a.time.model⟩ b inputs
  | _, _, _, _ => return .skipped

/-- Lower the blocks among nodes, in order. -/
def lowerNodes (a : Analysis) (slots : BusSlots) : List Nat → Visit Unit
  | [] => return ()
  | u :: rest => do
    match a.graph.node u with
    | .bus _ => lowerNodes a slots rest
    | .block b =>
      let o ← lowerBlock a slots b
      modify fun v => { v with outcomes := v.outcomes ++ [(b, o)] }
      lowerNodes a slots rest

end Visit

/-- Lower the blocks of a patch. -/
def Analysis.lowerBlocks (a : Analysis) (slots : BusSlots) : Emit Lowered := do
  let order := a.graph.evaluationOrder a.patch a.registry a.cycles
  let (_, v) ← (Visit.lowerNodes a slots order).run {}
  return {
    outcomes := (List.range a.patch.blocks.length).map fun i => (v.outcomes.lookup ⟨i⟩).getD .skipped
    forwards := v.forwards
    order }

end PatchGraph
