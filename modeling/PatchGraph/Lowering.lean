import PatchGraph.Program.Builder

/-!
# Lowerings

A lowering turns a block whose inputs are known into expressions, states and handles of a program. It fails when an input or a
parameter is not what it needs; what it added before stays.
-/

namespace PatchGraph

/-- What is wrong with a parameter. -/
inductive ParamProblem where
  | required (type : ValueType)
  | notNumber (found : Value)
  | notCount (found : Binary64)
  deriving DecidableEq

/-- The wording of a problem with a parameter. -/
def ParamProblem.message : ParamProblem → String
  | .required t => s!"required for {t.display}"
  | .notNumber v => s!"expected a number, found {v.display}"
  | .notCount x => s!"expected a positive integer, found {x.display}"

/-- Why a block could not be lowered. -/
inductive LowerError where
  | missingInput (port : String)
  | operand (port kind : String)
  | param (name : String) (problem : ParamProblem)
  | unknownOutput (port : String)
  deriving DecidableEq

/-- The wording of an error. -/
def LowerError.message : LowerError → String
  | .missingInput port => s!"input '{port}' has no value"
  | .operand port kind => s!"input '{port}' is a {kind} value, which this block cannot consume"
  | .param name problem => s!"parameter '{name}': {problem.message}"
  | .unknownOutput port => s!"output '{port}' is not declared or has no IR form"

/-- A step of lowering. -/
abbrev Lower := ExceptT LowerError Build

/-- The block that is lowered: its place, its id and parameters, its declared outputs with their types, and the time it lives in. -/
structure Site where
  block : BlockIx
  id : String
  params : Dict Value
  outputs : List (String × Option ValueType)
  time : TimeModel

/-- The lowerings that are known by name. -/
inductive LoweringKind where
  /-- The signals of time itself. -/
  | timeRoot
  /-- A parameter, or the zero of the output's domain. -/
  | const
  /-- The input as it is, in the world of the output. -/
  | identity
  | zip (op : Op)
  | map (op : Op)
  | delay | integrate | sampleHold
  /-- A domain of elements. -/
  | domain
  | renderSink
  | camera
  deriving DecidableEq

/-- How a block is lowered: by a kind that is known by name, or otherwise. -/
inductive Lowering where
  | kind (k : LoweringKind)
  | custom (run : Site → Dict ValueRef → Lower (Dict ValueRef))

namespace Lower

/-- A value that must be there. -/
def need {α : Type} (e : LowerError) : Option α → Lower α
  | some a => return a
  | none => throw e

/-- A step of building whose result must be there. -/
def needed {α : Type} (e : LowerError) (step : Build (Option α)) : Lower α := do
  need e (← step)

/-- The value of an input that must be connected. -/
def input (inputs : Dict ValueRef) (port : String) : Lower ValueRef := need (.missingInput port) (inputs.get? port)

/-- An input as a signal. -/
def signal (port : String) (v : ValueRef) : Lower SignalId := needed (.operand port v.kindName) (Build.asSignal v)

/-- An input as a field. -/
def field (port : String) (v : ValueRef) : Lower FieldId := needed (.operand port v.kindName) (Build.asField v)

/-- An input as an event. -/
def event (port : String) (v : ValueRef) : Lower EventId := needed (.operand port v.kindName) (Build.asEvent v)

/-- An input as the number of a constant. -/
def number (port : String) (v : ValueRef) : Lower Binary64 := do
  let b ← get
  need (.operand port v.kindName) <| match v with
    | .const id _ => (b.constant? id).bind Value.number?
    | _ => none

/-- A new signal as an output. -/
def signalOutput (e : SignalExpr) (t : ValueType) : Lower ValueRef := do
  Build.signalValue (← Build.signal e) t

/-- A new field as an output. -/
def fieldOutput (e : FieldExpr) (t : ValueType) : Lower ValueRef := do
  Build.fieldValue (← Build.field e) t

/-- A new event as an output. -/
def eventOutput (e : EventExpr) (t : ValueType) : Lower ValueRef := do
  Build.eventValue (← Build.event e) t

/-- One output. -/
def single (port : String) (v : ValueRef) : Dict ValueRef := Dict.insert {} port v

end Lower

namespace Site

/-- The type of a declared output. -/
def outputType (site : Site) (port : String) : Lower ValueType :=
  Lower.need (.unknownOutput port) ((site.outputs.find? (·.1 = port)).bind (·.2))

/-- The number of a parameter, or a default. -/
def number (site : Site) (name : String) (default : Binary64) : Lower Binary64 :=
  match site.params.get? name with
  | none => return default
  | some v => Lower.need (.param name (.notNumber v)) v.number?

end Site

namespace LoweringKind

/-- The kinds under their names. -/
def table : List (String × LoweringKind) :=
  [("timeRoot", .timeRoot), ("const", .const), ("identity", .identity), ("broadcast", .identity),
    ("add", .zip .add), ("sub", .zip .sub), ("mul", .zip .mul), ("div", .zip .div), ("min", .zip .min), ("max", .zip .max),
    ("sin", .map .sin), ("cos", .map .cos), ("abs", .map .abs), ("neg", .map .neg), ("fract", .map .fract),
    ("delay", .delay), ("integrate", .integrate), ("sampleHold", .sampleHold),
    ("domain", .domain), ("renderSink", .renderSink), ("camera", .camera)]

/-- The kind of a name. -/
def ofName? (name : String) : Option LoweringKind := table.lookup name

/-- The signal or event of time that an output of a time root is, if there is one of that name. -/
def timeOutput? (time : TimeModel) (port : String) (t : ValueType) : Option (Lower ValueRef) :=
  if port = "time" then some (Lower.signalOutput .modelTime t)
  else if port = "absTime" then some (Lower.signalOutput .absoluteTime t)
  else if port = "phase" ∧ time.isCyclic then some (Lower.signalOutput .phase t)
  else if port = "wrap" ∧ time.isCyclic then some (Lower.eventOutput .wrap t)
  else none

/-- The outputs of a time root, in the order they are declared. -/
def timeOutputs (time : TimeModel) : List (String × Option ValueType) → Dict ValueRef → Lower (Dict ValueRef)
  | [], done => return done
  | (_, none) :: rest, done => timeOutputs time rest done
  | (port, some t) :: rest, done =>
    match timeOutput? time port t with
    | none => timeOutputs time rest done
    | some make => do timeOutputs time rest (done.insert port (← make))

/-- The value of a constant block. -/
def constValue (site : Site) (t : ValueType) : Lower Value :=
  match site.params.get? "value" with
  | some v => return v
  | none => Lower.need (.param "value" (.required t)) t.domain.zero?

/-- Lower a constant block. -/
def lowerConst (site : Site) : Lower (Dict ValueRef) := do
  let t ← site.outputType "out"
  let v ← constValue site t
  let c ← Build.constant v (t.withWorld .scalar)
  let out ← Lower.needed (.unknownOutput "out") (Build.coerce c t)
  return Lower.single "out" out

/-- Lower a block that passes its input on. -/
def lowerIdentity (site : Site) (inputs : Dict ValueRef) : Lower (Dict ValueRef) := do
  let t ← site.outputType "out"
  let v ← Lower.input inputs "in"
  let out ← Lower.needed (.operand "in" v.kindName) (Build.coerce v t)
  return Lower.single "out" out

/-- Lower an operation with two operands. -/
def lowerZip (op : Op) (site : Site) (inputs : Dict ValueRef) : Lower (Dict ValueRef) := do
  let t ← site.outputType "out"
  let a ← Lower.input inputs "a"
  let b ← Lower.input inputs "b"
  match t.representation with
  | .signal =>
    let x ← Lower.signal "a" a
    let y ← Lower.signal "b" b
    return Lower.single "out" (← Lower.signalOutput (.zip op x y) t)
  | .field =>
    let x ← Lower.field "a" a
    let y ← Lower.field "b" b
    return Lower.single "out" (← Lower.fieldOutput (.zip op x y) t)
  | .const =>
    let x ← Lower.number "a" a
    let y ← Lower.number "b" b
    return Lower.single "out" (← Build.constant (.float (op.fold x y)) t)
  | .event | .handle | .none => throw (.unknownOutput "out")

/-- Lower an operation with one operand. -/
def lowerMap (op : Op) (site : Site) (inputs : Dict ValueRef) : Lower (Dict ValueRef) := do
  let t ← site.outputType "out"
  let v ← Lower.input inputs "in"
  match t.representation with
  | .signal =>
    let x ← Lower.signal "in" v
    return Lower.single "out" (← Lower.signalOutput (.map op x) t)
  | .field =>
    let x ← Lower.field "in" v
    return Lower.single "out" (← Lower.fieldOutput (.map op x) t)
  | .const =>
    let x ← Lower.number "in" v
    return Lower.single "out" (← Build.constant (.float (op.fold x .zero)) t)
  | .event | .handle | .none => throw (.unknownOutput "out")

/-- Lower a block with a state: `expr` makes its signal from the state and the input. -/
def lowerStateful (site : Site) (inputs : Dict ValueRef) (expr : StateId → SignalId → Lower SignalExpr) :
    Lower (Dict ValueRef) := do
  let t ← site.outputType "out"
  let init ← site.number "init" .zero
  let v ← Lower.input inputs "in"
  let x ← Lower.signal "in" v
  let s ← Build.state site.block (.float init)
  return Lower.single "out" (← Lower.signalOutput (← expr s x) t)

/-- The event that triggers a sample, if it is connected. -/
def trigger (inputs : Dict ValueRef) : Lower (Option EventId) :=
  match inputs.get? "trigger" with
  | none => return none
  | some v => do return some (← Lower.event "trigger" v)

/-- The number of elements a parameter asks for: at least one, and as many as 32 bits can count. -/
def elementCount? (x : Binary64) : Option Nat :=
  match x.toInt? with
  | some i => if 1 ≤ i ∧ i < 0x100000000 then some i.toNat else none
  | none => none

/-- Lower a domain of elements. -/
def lowerDomain (site : Site) : Lower (Dict ValueRef) := do
  let x ← site.number "count" .one
  let count ← Lower.need (.param "count" (.notCount x)) (elementCount? x)
  let h ← Build.handle site.block (.elementDomain count)
  return Lower.single "domain" (.special (.domain h))

/-- Lower a render sink: it takes its inputs as they are and has no outputs. -/
def lowerRenderSink (site : Site) (inputs : Dict ValueRef) : Lower (Dict ValueRef) := do
  let h ← Build.handle site.block .renderSink
  Build.renderSink ⟨h, site.block, inputs⟩
  return {}

/-- Lower a camera. -/
def lowerCamera (site : Site) (inputs : Dict ValueRef) : Lower (Dict ValueRef) := do
  let h ← Build.handle site.block .camera
  Build.camera ⟨h, site.block, inputs⟩
  return Lower.single "camera" (.special (.camera h))

/-- Lower a block by its kind. -/
def run (k : LoweringKind) (site : Site) (inputs : Dict ValueRef) : Lower (Dict ValueRef) :=
  match k with
  | .timeRoot => timeOutputs site.time site.outputs {}
  | .const => lowerConst site
  | .identity => lowerIdentity site inputs
  | .zip op => lowerZip op site inputs
  | .map op => lowerMap op site inputs
  | .delay => lowerStateful site inputs fun s x => return .delay s x
  | .integrate => lowerStateful site inputs fun s x => return .integrate s x
  | .sampleHold => lowerStateful site inputs fun s x => do return .sampleHold s x (← trigger inputs)
  | .domain => lowerDomain site
  | .renderSink => lowerRenderSink site inputs
  | .camera => lowerCamera site inputs

end LoweringKind

/-- Lower a block. -/
def Lowering.run (l : Lowering) (site : Site) (inputs : Dict ValueRef) : Lower (Dict ValueRef) :=
  match l with
  | .kind k => k.run site inputs
  | .custom run => run site inputs

end PatchGraph
