import PatchGraph.Dict
import PatchGraph.Time.Model
import PatchGraph.ValueType

/-!
# Programs

A program is a set of tables. Expressions of each world, constants, slots, states and handles are named by their place in their
table. A slot holds the value of one expression, so that it can be read before that expression exists.
-/

namespace PatchGraph

/-! ## Names by place -/

/-- A block of a normalized patch, by its place. -/
structure BlockIx where
  index : Nat
  deriving DecidableEq, Inhabited

/-- A bus of a normalized patch, by its place. -/
structure BusIx where
  index : Nat
  deriving DecidableEq, Inhabited

/-- A constant of a program. -/
structure ConstId where
  index : Nat
  deriving DecidableEq, Inhabited

/-- A signal expression of a program. -/
structure SignalId where
  index : Nat
  deriving DecidableEq, Inhabited

/-- A field expression of a program. -/
structure FieldId where
  index : Nat
  deriving DecidableEq, Inhabited

/-- An event expression of a program. -/
structure EventId where
  index : Nat
  deriving DecidableEq, Inhabited

/-- A slot of a program. -/
structure SlotId where
  index : Nat
  deriving DecidableEq, Inhabited

/-- A state cell of a program. -/
structure StateId where
  index : Nat
  deriving DecidableEq, Inhabited

/-- A handle of a program. -/
structure HandleId where
  index : Nat
  deriving DecidableEq, Inhabited

/-- The name of a block by its place. -/
def BlockIx.display (b : BlockIx) : String := s!"b{b.index}"

/-- The name of a bus by its place. -/
def BusIx.display (b : BusIx) : String := s!"bus{b.index}"

/-- The name of a constant. -/
def ConstId.display (c : ConstId) : String := s!"c{c.index}"

/-- The name of a signal expression. -/
def SignalId.display (e : SignalId) : String := s!"sig{e.index}"

/-- The name of a field expression. -/
def FieldId.display (e : FieldId) : String := s!"fld{e.index}"

/-- The name of an event expression. -/
def EventId.display (e : EventId) : String := s!"evt{e.index}"

/-- The name of a slot. -/
def SlotId.display (s : SlotId) : String := s!"slot{s.index}"

/-- The name of a state cell. -/
def StateId.display (s : StateId) : String := s!"state{s.index}"

/-- The name of a handle. -/
def HandleId.display (h : HandleId) : String := s!"h{h.index}"

/-! ## Operations -/

/-- An arithmetic operation. -/
inductive Op where
  | add | sub | mul | div | min | max | sin | cos | abs | neg | fract | clamp01 | invert
  deriving DecidableEq

namespace Op

/-- The operations under their names. -/
def table : List (String × Op) :=
  [("add", .add), ("sub", .sub), ("mul", .mul), ("div", .div), ("min", .min), ("max", .max), ("sin", .sin), ("cos", .cos),
    ("abs", .abs), ("neg", .neg), ("fract", .fract), ("clamp01", .clamp01), ("invert", .invert)]

/-- The name of an operation. -/
def name : Op → String
  | .add => "add"
  | .sub => "sub"
  | .mul => "mul"
  | .div => "div"
  | .min => "min"
  | .max => "max"
  | .sin => "sin"
  | .cos => "cos"
  | .abs => "abs"
  | .neg => "neg"
  | .fract => "fract"
  | .clamp01 => "clamp01"
  | .invert => "invert"

/-- Whether an operation has one operand. -/
def isUnary : Op → Bool
  | .add | .sub | .mul | .div | .min | .max => false
  | .sin | .cos | .abs | .neg | .fract | .clamp01 | .invert => true

/-- The value of an operation on constants; an operation with one operand ignores the second. -/
def fold : Op → Binary64 → Binary64 → Binary64
  | .add, a, b => a + b
  | .sub, a, b => a - b
  | .mul, a, b => a * b
  | .div, a, b => a / b
  | .min, a, b => a.min b
  | .max, a, b => a.max b
  | .sin, a, _ => a.sin
  | .cos, a, _ => a.cos
  | .abs, a, _ => a.abs
  | .neg, a, _ => a.neg
  | .fract, a, _ => a.fract
  | .clamp01, a, _ => a.clamp01
  | .invert, a, _ => a.invert

end Op

/-! ## Expressions -/

/-- An expression that has a value at each moment. -/
inductive SignalExpr where
  | const (value : ConstId)
  | absoluteTime
  | modelTime
  | phase
  | read (slot : SlotId)
  | map (op : Op) (source : SignalId)
  | zip (op : Op) (a b : SignalId)
  | delay (state : StateId) (input : SignalId)
  | integrate (state : StateId) (input : SignalId)
  | sampleHold (state : StateId) (input : SignalId) (trigger : Option EventId)
  | combine (mode : CombineMode) (terms : List SignalId)
  deriving DecidableEq

/-- An expression that has a value at each element of a domain. -/
inductive FieldExpr where
  | const (value : ConstId)
  | broadcast (source : SignalId)
  | read (slot : SlotId)
  | map (op : Op) (source : FieldId)
  | zip (op : Op) (a b : FieldId)
  | combine (mode : CombineMode) (terms : List FieldId)
  deriving DecidableEq

/-- An expression that occurs at some moments. -/
inductive EventExpr where
  | never
  | wrap
  | read (slot : SlotId)
  | merge (terms : List EventId)
  | override (terms : List EventId)
  deriving DecidableEq

/-! ## Values -/

/-- A handle together with what it is a handle of. -/
inductive HandleRef where
  | domain (handle : HandleId)
  | renderSink (handle : HandleId)
  | camera (handle : HandleId)
  deriving DecidableEq

/-- The handle itself. -/
def HandleRef.id : HandleRef → HandleId
  | .domain h | .renderSink h | .camera h => h

/-- A value of a program: a typed constant, an expression in its slot, or a handle. -/
inductive ValueRef where
  | const (id : ConstId) (type : ValueType)
  | signal (expr : SignalId) (slot : SlotId)
  | field (expr : FieldId) (slot : SlotId)
  | event (expr : EventId) (slot : SlotId)
  | special (handle : HandleRef)
  deriving DecidableEq

/-- The expression a slot holds the value of. -/
inductive SlotSource where
  | unbound
  | signal (expr : SignalId)
  | field (expr : FieldId)
  | event (expr : EventId)
  deriving DecidableEq

namespace ValueRef

/-- The slot of a value. -/
def slot? : ValueRef → Option SlotId
  | .signal _ s | .field _ s | .event _ s => some s
  | .const _ _ | .special _ => none

/-- The expression of a value, as the source of another slot. -/
def source? : ValueRef → Option SlotSource
  | .signal e _ => some (.signal e)
  | .field e _ => some (.field e)
  | .event e _ => some (.event e)
  | .const _ _ | .special _ => none

/-- The kind of a value as messages name it. -/
def kindName : ValueRef → String
  | .const _ _ => "const"
  | .signal _ _ => "signal"
  | .field _ _ => "field"
  | .event _ _ => "event"
  | .special _ => "special"

/-- Whether a value has the form that a representation asks for. -/
def fits : Representation → ValueRef → Bool
  | .const, .const _ _ | .signal, .signal _ _ | .field, .field _ _ | .event, .event _ _ | .handle, .special _ => true
  | _, _ => false

end ValueRef

/-! ## Tables -/

/-- A slot: the type of its value and the expression it holds the value of. -/
structure Slot where
  type : ValueType
  source : SlotSource
  deriving DecidableEq

/-- A state cell: the block that owns it and the constant it starts from. -/
structure StateCell where
  owner : BlockIx
  init : ConstId
  deriving DecidableEq

/-- What a handle is a handle of. -/
inductive HandleKind where
  | elementDomain (count : Nat)
  | renderSink
  | camera
  deriving DecidableEq

/-- A handle and the block that owns it. -/
structure Handle where
  owner : BlockIx
  kind : HandleKind
  deriving DecidableEq

/-- A sink: its handle, its block and what flows into it. -/
structure Sink where
  handle : HandleId
  block : BlockIx
  inputs : Dict ValueRef
  deriving DecidableEq

/-- A step of the schedule. -/
inductive ScheduleStep where
  | block (b : BlockIx)
  | bus (b : BusIx)
  deriving DecidableEq

/-- A program. -/
structure Program where
  timeModel : Option TimeModel
  consts : List Value
  signals : List SignalExpr
  fields : List FieldExpr
  events : List EventExpr
  slots : List Slot
  states : List StateCell
  handles : List Handle
  renderSinks : List Sink
  cameras : List Sink
  schedule : List ScheduleStep
  deriving DecidableEq

/-- The slot of a name. -/
def Program.slot? (p : Program) (s : SlotId) : Option Slot := p.slots[s.index]?

/-- The sizes of the tables, in one line. -/
def Program.summary (p : Program) : String :=
  s!"consts={p.consts.length} signals={p.signals.length} fields={p.fields.length} events={p.events.length} " ++
  s!"slots={p.slots.length} states={p.states.length} handles={p.handles.length} sinks={p.renderSinks.length} " ++
  s!"cameras={p.cameras.length} steps={p.schedule.length}"

end PatchGraph
