import PatchGraph.Compile.Certificate

/-!
# Names in bounds

What it means that the names in a program are names of something, as a statement about each of its names (`Program.Has`), and that
this stays true when tables grow. An expression is built from expressions of its own world that are already there, so its operands
come before it (`Program.Backward`).
-/

namespace PatchGraph

/-- The signal expressions that a signal expression is made of. -/
def SignalExpr.operands : SignalExpr → List SignalId
  | .const _ | .absoluteTime | .modelTime | .phase | .read _ => []
  | .map _ e | .delay _ e | .integrate _ e | .sampleHold _ e _ => [e]
  | .zip _ a b => [a, b]
  | .combine _ terms => terms

/-- The field expressions that a field expression is made of. -/
def FieldExpr.operands : FieldExpr → List FieldId
  | .const _ | .broadcast _ | .read _ => []
  | .map _ e => [e]
  | .zip _ a b => [a, b]
  | .combine _ terms => terms

/-- The event expressions that an event expression is made of. -/
def EventExpr.operands : EventExpr → List EventId
  | .never | .wrap | .read _ => []
  | .merge terms | .override terms => terms

/-! ## Names -/

/-- A name in the tables of a program. -/
inductive Name where
  | const (c : ConstId)
  | signal (e : SignalId)
  | field (e : FieldId)
  | event (e : EventId)
  | slot (s : SlotId)
  | state (s : StateId)
  | handle (h : HandleId)
  deriving DecidableEq

/-- The names in a signal expression. -/
def SignalExpr.names : SignalExpr → List Name
  | .const c => [.const c]
  | .absoluteTime | .modelTime | .phase => []
  | .read s => [.slot s]
  | .map _ e => [.signal e]
  | .zip _ a b => [.signal a, .signal b]
  | .delay s e | .integrate s e => [.state s, .signal e]
  | .sampleHold s e t => .state s :: .signal e :: t.toList.map .event
  | .combine _ terms => terms.map .signal

/-- The names in a field expression. -/
def FieldExpr.names : FieldExpr → List Name
  | .const c => [.const c]
  | .broadcast e => [.signal e]
  | .read s => [.slot s]
  | .map _ e => [.field e]
  | .zip _ a b => [.field a, .field b]
  | .combine _ terms => terms.map .field

/-- The names in an event expression. -/
def EventExpr.names : EventExpr → List Name
  | .never | .wrap => []
  | .read s => [.slot s]
  | .merge terms | .override terms => terms.map .event

/-- The slot that a signal expression reads. -/
def SignalExpr.slot? : SignalExpr → Option SlotId
  | .read s => some s
  | _ => none

/-- The state that a signal expression has. -/
def SignalExpr.state? : SignalExpr → Option StateId
  | .delay s _ | .integrate s _ | .sampleHold s _ _ => some s
  | _ => none

/-- An expression with a state reads no slot. -/
theorem SignalExpr.slot?_of_state? {e : SignalExpr} {s : StateId} (h : e.state? = some s) : e.slot? = none := by
  cases e <;> first
    | rfl
    | cases h

/-- The slot that a field expression reads. -/
def FieldExpr.slot? : FieldExpr → Option SlotId
  | .read s => some s
  | _ => none

/-- The slot that an event expression reads. -/
def EventExpr.slot? : EventExpr → Option SlotId
  | .read s => some s
  | _ => none

/-- The names in the source of a slot. -/
def SlotSource.names : SlotSource → List Name
  | .unbound => []
  | .signal e => [.signal e]
  | .field e => [.field e]
  | .event e => [.event e]

/-- The names in a value. -/
def ValueRef.names : ValueRef → List Name
  | .const c _ => [.const c]
  | .signal e s => [.signal e, .slot s]
  | .field e s => [.field e, .slot s]
  | .event e s => [.event e, .slot s]
  | .special h => [.handle h.id]

namespace Program

/-- Every operand of an expression comes before it in its table. -/
structure Backward (p : Program) : Prop where
  signals : ∀ (i : Nat) (e : SignalExpr), p.signals[i]? = some e → ∀ x ∈ e.operands, x.index < i
  fields : ∀ (i : Nat) (e : FieldExpr), p.fields[i]? = some e → ∀ x ∈ e.operands, x.index < i
  events : ∀ (i : Nat) (e : EventExpr), p.events[i]? = some e → ∀ x ∈ e.operands, x.index < i

/-- A name is the name of something. -/
def Has (p : Program) : Name → Prop
  | .const c => c.index < p.consts.length
  | .signal e => e.index < p.signals.length
  | .field e => e.index < p.fields.length
  | .event e => e.index < p.events.length
  | .slot s => s.index < p.slots.length
  | .state s => s.index < p.states.length
  | .handle h => h.index < p.handles.length

variable {p q : Program}

/-! Names are in bounds if each of them is the name of something. -/

/-- A signal is in bounds if each of its names is the name of something. -/
theorem signalInBounds_iff {e : SignalExpr} : p.signalInBounds e = true ↔ ∀ x ∈ e.names, p.Has x := by
  cases e <;> simp [signalInBounds, SignalExpr.names, Has, and_assoc, Option.all_eq_true]

/-- A field is in bounds if each of its names is the name of something. -/
theorem fieldInBounds_iff {e : FieldExpr} : p.fieldInBounds e = true ↔ ∀ x ∈ e.names, p.Has x := by
  cases e <;> simp [fieldInBounds, FieldExpr.names, Has]

/-- An event is in bounds if each of its names is the name of something. -/
theorem eventInBounds_iff {e : EventExpr} : p.eventInBounds e = true ↔ ∀ x ∈ e.names, p.Has x := by
  cases e <;> simp [eventInBounds, EventExpr.names, Has]

/-- The source of a slot is in bounds if its name is the name of something. -/
theorem sourceInBounds_iff {s : SlotSource} : p.sourceInBounds s = true ↔ ∀ x ∈ s.names, p.Has x := by
  cases s <;> simp [sourceInBounds, SlotSource.names, Has]

/-- A value is in bounds if each of its names is the name of something. -/
theorem valueInBounds_iff {v : ValueRef} : p.valueInBounds v = true ↔ ∀ x ∈ v.names, p.Has x := by
  cases v <;> simp [valueInBounds, ValueRef.names, Has]

/-- A sink is in bounds if its handle and all names of its inputs are names of something. -/
theorem sinkInBounds_iff {s : Sink} :
    p.sinkInBounds s = true ↔ p.Has (.handle s.handle) ∧ ∀ v ∈ s.inputs.values, ∀ x ∈ v.names, p.Has x := by
  simp only [sinkInBounds, Bool.and_eq_true, List.all_eq_true, valueInBounds_iff, Has, decide_eq_true_eq]

/-! ## Names stay in bounds -/

/-- The tables of a program are no longer than those of another. -/
structure Within (p q : Program) : Prop where
  consts : p.consts.length ≤ q.consts.length
  signals : p.signals.length ≤ q.signals.length
  fields : p.fields.length ≤ q.fields.length
  events : p.events.length ≤ q.events.length
  slots : p.slots.length ≤ q.slots.length
  states : p.states.length ≤ q.states.length
  handles : p.handles.length ≤ q.handles.length

/-- What has a name in a program has it in every longer one. -/
theorem Within.has (h : p.Within q) {x : Name} (hx : p.Has x) : q.Has x := by
  cases x with
  | const c => exact Nat.lt_of_lt_of_le hx h.consts
  | signal e => exact Nat.lt_of_lt_of_le hx h.signals
  | field e => exact Nat.lt_of_lt_of_le hx h.fields
  | event e => exact Nat.lt_of_lt_of_le hx h.events
  | slot s => exact Nat.lt_of_lt_of_le hx h.slots
  | state s => exact Nat.lt_of_lt_of_le hx h.states
  | handle s => exact Nat.lt_of_lt_of_le hx h.handles

/-- Signals stay in bounds when tables grow. -/
theorem Within.signal (h : p.Within q) {e : SignalExpr} (he : p.signalInBounds e = true) : q.signalInBounds e = true :=
  signalInBounds_iff.2 fun x hx => h.has (signalInBounds_iff.1 he x hx)

/-- Fields stay in bounds when tables grow. -/
theorem Within.field (h : p.Within q) {e : FieldExpr} (he : p.fieldInBounds e = true) : q.fieldInBounds e = true :=
  fieldInBounds_iff.2 fun x hx => h.has (fieldInBounds_iff.1 he x hx)

/-- Events stay in bounds when tables grow. -/
theorem Within.event (h : p.Within q) {e : EventExpr} (he : p.eventInBounds e = true) : q.eventInBounds e = true :=
  eventInBounds_iff.2 fun x hx => h.has (eventInBounds_iff.1 he x hx)

/-- Sources of slots stay in bounds when tables grow. -/
theorem Within.source (h : p.Within q) {s : SlotSource} (hs : p.sourceInBounds s = true) : q.sourceInBounds s = true :=
  sourceInBounds_iff.2 fun x hx => h.has (sourceInBounds_iff.1 hs x hx)

/-- Sinks stay in bounds when tables grow. -/
theorem Within.sink (h : p.Within q) {s : Sink} (hs : p.sinkInBounds s = true) : q.sinkInBounds s = true := by
  obtain ⟨hhandle, hinputs⟩ := sinkInBounds_iff.1 hs
  exact sinkInBounds_iff.2 ⟨h.has hhandle, fun v hv x hx => h.has (hinputs v hv x hx)⟩

/-! ## Operands are names -/

/-- The operands of a signal in bounds are signals of the program. -/
theorem lt_of_mem_signal_operands {e : SignalExpr} (he : p.signalInBounds e = true) :
    ∀ x ∈ e.operands, x.index < p.signals.length := by
  cases e <;> simp_all [signalInBounds, SignalExpr.operands]

/-- The operands of a field in bounds are fields of the program. -/
theorem lt_of_mem_field_operands {e : FieldExpr} (he : p.fieldInBounds e = true) :
    ∀ x ∈ e.operands, x.index < p.fields.length := by
  cases e <;> simp_all [fieldInBounds, FieldExpr.operands]

/-- The operands of an event in bounds are events of the program. -/
theorem lt_of_mem_event_operands {e : EventExpr} (he : p.eventInBounds e = true) :
    ∀ x ∈ e.operands, x.index < p.events.length := by
  cases e <;> simp_all [eventInBounds, EventExpr.operands]

end Program

end PatchGraph
