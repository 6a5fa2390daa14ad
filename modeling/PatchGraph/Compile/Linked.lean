import PatchGraph.Compile.BusValue
import PatchGraph.Program.Json

/-!
# Linked programs

The last step from a patch to a program. Slots that were reserved for outputs inside cycles are bound to them, inputs of blocks that
have no lowering are resolved so that they can be looked at, and the schedule is laid down. A linked program also says which value
each port has.
-/

namespace PatchGraph

/-- The value of a port: its block, its place among the ports of its side, its name and its type. -/
structure PortBinding where
  block : BlockIx
  place : Nat
  port : String
  type : Option ValueType
  value : ValueRef
  deriving DecidableEq

/-- A program with the ids of its blocks and buses and the values of their ports. -/
structure Linked where
  program : Program
  blockIds : List String
  busIds : List String
  inputs : List PortBinding
  outputs : List PortBinding
  deriving DecidableEq

namespace Linked

/-- The value of an input. -/
def input? (l : Linked) (b : BlockIx) (port : String) : Option PortBinding :=
  l.inputs.find? fun p => p.block = b ∧ p.port = port

/-- The value of an output. -/
def output? (l : Linked) (b : BlockIx) (port : String) : Option PortBinding :=
  l.outputs.find? fun p => p.block = b ∧ p.port = port

end Linked

/-- The value of a port in a data file. -/
def PortBinding.toJson (p : PortBinding) : Json :=
  .obj [("block", .nat p.block.index), ("portIndex", .nat p.place), ("port", .str p.port),
    ("ty", Json.optional ValueType.toJson p.type), ("value", p.value.toJson)]

/-- A linked program in a data file. -/
def Linked.toJson (l : Linked) : Json :=
  .obj [("program", l.program.toJson), ("blockIds", .arr (l.blockIds.map Json.str)), ("busIds", .arr (l.busIds.map Json.str)),
    ("inputs", .arr (l.inputs.map PortBinding.toJson)), ("outputs", .arr (l.outputs.map PortBinding.toJson))]

/-- What a caller can choose. It changes what is said, never the program. -/
structure Options where
  /-- Whether a bus without publishers is an error. -/
  requirePublishers : Bool := false
  deriving DecidableEq

namespace Linking

/-! ## Slots reserved inside cycles -/

/-- The diagnostic for a slot that was reserved for an output that never came. -/
def unboundForward (id port : String) : Diagnostic :=
  .error .missingOutput (.port id port) s!"output '{id}.{port}' is read inside a cycle but was never registered"

/-- Bind the slots that were reserved for outputs. -/
def bindForwards (a : Analysis) (l : Lowered) : List ForwardSlot → Emit Unit
  | [] => return ()
  | f :: rest => do
    match (l.output? f.block f.port).bind ValueRef.source? with
    | some source => do let _ ← Emit.build (Build.bind f.slot source)
    | none => Emit.report (unboundForward (a.patch.blockId f.block) f.port)
    bindForwards a l rest

/-! ## Inputs of blocks without a lowering -/

/-- The value that a writer starts from. -/
def source (slots : BusSlots) (l : Lowered) (t : ValueType) : Writer → Emit (Option ValueRef)
  | .wire _ _ b port => return l.output? b port
  | .bus _ _ b => Emit.build (readBus slots b)
  | .fallback _ c => return some (fallbackValue c t)

/-- The value of the first writer that has one. -/
def firstTerm (a : Analysis) (slots : BusSlots) (l : Lowered) (t : ValueType) : List Writer → Emit (Option ValueRef)
  | [] => return none
  | w :: rest => do
    match ← source slots l t w with
    | none => firstTerm a slots l t rest
    | some v =>
      match ← finishTerm a.registry (a.edge? w) t v with
      | some term => return some term
      | none => firstTerm a slots l t rest

/-- Resolve an input of a block without a lowering. -/
def resolveInput (a : Analysis) (slots : BusSlots) (l : Lowered) (b : BlockIx) (input : InputDecl) : Emit (Option ValueRef) :=
  match a.types.inputType? b input.id with
  | none => return none
  | some t => do
    let ws := a.patch.writers b input.id
    match policyProblem? t (input.combine.getD {}) ws (.port (a.patch.blockId b) input.id) with
    | some d =>
      Emit.report d
      return none
    | none => firstTerm a slots l t ws

/-- Resolve inputs in order. -/
def resolveInputs (a : Analysis) (slots : BusSlots) (l : Lowered) (b : BlockIx) :
    List InputDecl → Dict ValueRef → Emit (Dict ValueRef)
  | [], done => return done
  | input :: rest, done => do
    match ← resolveInput a slots l b input with
    | none => resolveInputs a slots l b rest done
    | some v => resolveInputs a slots l b rest (done.insert input.id v)

/-- The inputs of a block: those it was lowered with, or else those that can be resolved now. -/
def blockInputs (a : Analysis) (slots : BusSlots) (l : Lowered) (b : BlockIx) : Emit (Dict ValueRef) :=
  if (l.outcome b).attempted then return (l.outcome b).inputs
  else match a.patch.decl? a.registry b with
    | none => return {}
    | some d => resolveInputs a slots l b d.inputs {}

/-- The inputs of each block. -/
def allInputs (a : Analysis) (slots : BusSlots) (l : Lowered) : List BlockIx → Emit (List (Dict ValueRef))
  | [] => return []
  | b :: rest => do
    let inputs ← blockInputs a slots l b
    return inputs :: (← allInputs a slots l rest)

/-! ## Checks -/

/-- The diagnostic for an output without a slot. -/
def unregistered (id port : String) (t : ValueType) : Diagnostic :=
  .error .missingOutput (.port id port) s!"output '{id}.{port}' ({t.display}) was not registered to a slot"

/-- What is wrong with the outputs of a lowered block: each that lives in a slot must have one with a source. -/
def outputDiagnostics (builder : Builder) (id : String) (outputs : Dict ValueRef) (declared : List (String × Option ValueType)) :
    List Diagnostic :=
  declared.filterMap fun (port, type) =>
    match type with
    | none => none
    | some t =>
      let registered := ((outputs.get? port).bind ValueRef.slot?).any builder.isBound
      if t.isSlotted && !registered then some (unregistered id port t) else none

/-- What is wrong with the outputs of all lowered blocks. -/
def allOutputDiagnostics (a : Analysis) (l : Lowered) (builder : Builder) : List Diagnostic :=
  a.patch.placedBlocks.flatMap fun (ix, b) =>
    match (l.outcome ix).outputs?, a.types.ports? ix with
    | some outputs, some ports => outputDiagnostics builder b.id outputs ports.outputs
    | _, _ => []

/-- The diagnostic for a bus without publishers. -/
def silentBus (options : Options) (id : String) : Diagnostic where
  code := some .silentBus
  level := if options.requirePublishers then .error else .warning
  locator := .bus id
  message := s!"bus '{id}' has no publishers; it holds its default value"

/-- The buses without publishers, except those that already failed. -/
def busDiagnostics (a : Analysis) (buses : List BusOutcome) (options : Options) : List Diagnostic :=
  (a.patch.buses.zip buses).filterMap fun (b, o) =>
    if !o.failed && o.effective = 0 then some (silentBus options b.id) else none

/-! ## Schedule and tables -/

/-- The step of a node, if it has a value. -/
def step? (a : Analysis) (l : Lowered) (buses : List BusOutcome) (u : Nat) : Option ScheduleStep :=
  match a.graph.node u with
  | .block b => if (l.outcome b).outputs?.isSome then some (.block b) else none
  | .bus b => if (buses[b.index]?).any (·.value.isSome) then some (.bus b) else none

/-- Lay down steps in order. -/
def pushSteps : List ScheduleStep → Build Unit
  | [] => return ()
  | s :: rest => do
    Build.step s
    pushSteps rest

/-- The ports among names that have a value, with their places. -/
def bindings (b : BlockIx) (names : List String) (type : String → Option ValueType) (values : Dict ValueRef) :
    List PortBinding :=
  names.zipIdx.filterMap fun (port, i) => (values.get? port).map fun v => ⟨b, i, port, type port, v⟩

/-- The values of all inputs. -/
def inputTable (a : Analysis) (inputs : List (Dict ValueRef)) : List PortBinding :=
  (a.patch.placedBlocks.zip inputs).flatMap fun ((ix, b), values) =>
    match a.registry.decl? b.type with
    | none => []
    | some d => bindings ix (d.inputs.map (·.id)) (a.types.inputType? ix) values

/-- The values of all outputs. -/
def outputTable (a : Analysis) (l : Lowered) : List PortBinding :=
  a.patch.placedBlocks.flatMap fun (ix, b) =>
    match a.registry.decl? b.type, (l.outcome ix).outputs? with
    | some d, some values => bindings ix (d.outputs.map (·.id)) (a.types.outputType? ix) values
    | _, _ => []

end Linking

/-- Link the program of a patch whose blocks and buses are lowered. -/
def Analysis.link (a : Analysis) (slots : BusSlots) (l : Lowered) (buses : List BusOutcome) (options : Options) :
    Emit Linked := do
  Linking.bindForwards a l l.forwards
  let inputs ← Linking.allInputs a slots l (a.patch.placedBlocks.map (·.1))
  modify fun w => { w with diagnostics := w.diagnostics ++ Linking.allOutputDiagnostics a l w.builder }
  modify fun w => { w with diagnostics := w.diagnostics ++ Linking.busDiagnostics a buses options }
  Emit.build (Linking.pushSteps (l.order.filterMap (Linking.step? a l buses)))
  return {
    program := (← get).builder.finish
    blockIds := a.patch.blocks.map (·.id)
    busIds := a.patch.buses.map (·.id)
    inputs := Linking.inputTable a inputs
    outputs := Linking.outputTable a l }

end PatchGraph
