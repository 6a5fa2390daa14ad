import PatchGraph.Compile.Linked

/-!
# Verifying linked programs

A linked program is checked for what its readers rely on: every slot has a source, every name in it is a name of something, and every
input has a value of the form its type asks for.
-/

namespace PatchGraph

namespace Program

/-- Whether the names in a signal expression are names of something. -/
def signalInBounds (p : Program) : SignalExpr → Bool
  | .const c => c.index < p.consts.length
  | .absoluteTime | .modelTime | .phase => true
  | .read s => s.index < p.slots.length
  | .map _ e => e.index < p.signals.length
  | .zip _ a b => a.index < p.signals.length && b.index < p.signals.length
  | .delay s e | .integrate s e => s.index < p.states.length && e.index < p.signals.length
  | .sampleHold s e t => s.index < p.states.length && e.index < p.signals.length && t.all fun t => t.index < p.events.length
  | .combine _ terms => terms.all fun t => t.index < p.signals.length

/-- Whether the names in a field expression are names of something. -/
def fieldInBounds (p : Program) : FieldExpr → Bool
  | .const c => c.index < p.consts.length
  | .broadcast e => e.index < p.signals.length
  | .read s => s.index < p.slots.length
  | .map _ e => e.index < p.fields.length
  | .zip _ a b => a.index < p.fields.length && b.index < p.fields.length
  | .combine _ terms => terms.all fun t => t.index < p.fields.length

/-- Whether the names in an event expression are names of something. -/
def eventInBounds (p : Program) : EventExpr → Bool
  | .never | .wrap => true
  | .read s => s.index < p.slots.length
  | .merge terms | .override terms => terms.all fun t => t.index < p.events.length

/-- Whether the source of a slot is something. -/
def sourceInBounds (p : Program) : SlotSource → Bool
  | .unbound => true
  | .signal e => e.index < p.signals.length
  | .field e => e.index < p.fields.length
  | .event e => e.index < p.events.length

/-- Whether the names in a value are names of something. -/
def valueInBounds (p : Program) : ValueRef → Bool
  | .const c _ => c.index < p.consts.length
  | .signal e s => e.index < p.signals.length && s.index < p.slots.length
  | .field e s => e.index < p.fields.length && s.index < p.slots.length
  | .event e s => e.index < p.events.length && s.index < p.slots.length
  | .special h => h.id.index < p.handles.length

/-- Whether the names in a sink are names of something. -/
def sinkInBounds (p : Program) (s : Sink) : Bool := s.handle.index < p.handles.length && s.inputs.values.all p.valueInBounds

/-- Whether all names in a program are names of something. -/
def inBounds (p : Program) : Bool :=
  p.signals.all p.signalInBounds && p.fields.all p.fieldInBounds && p.events.all p.eventInBounds
    && (p.slots.all fun s => p.sourceInBounds s.source) && (p.states.all fun s => s.init.index < p.consts.length)
    && (p.renderSinks ++ p.cameras).all p.sinkInBounds

end Program

/-- The findings of the verification. -/
structure Certificate where
  slotsBound : Bool
  inBounds : Bool
  inputsTyped : Bool
  deriving DecidableEq

namespace Certificate

/-- The findings under their names. -/
def obligations (c : Certificate) : List (String × Bool) :=
  [("R1_slots_registered", c.slotsBound), ("R2_expr_refs_in_bounds", c.inBounds), ("R3_inputs_typed", c.inputsTyped)]

/-- Whether nothing was found wrong. -/
def passes (c : Certificate) : Bool := c.slotsBound && c.inBounds && c.inputsTyped

/-- The names of what was found wrong. -/
def failures (c : Certificate) : List String := (c.obligations.filter fun o => !o.2).map (·.1)

end Certificate

namespace Linked

/-- Whether every slot has a source. -/
def slotsBound (l : Linked) : Bool := l.program.slots.all fun s => s.source != .unbound

/-- Whether all names are names of something. -/
def inBounds (l : Linked) : Bool :=
  l.program.inBounds
    && (l.inputs ++ l.outputs).all fun p => p.block.index < l.blockIds.length && l.program.valueInBounds p.value

/-- Whether every input has a type and a value of the form it asks for. -/
def inputsTyped (l : Linked) : Bool :=
  l.inputs.all fun p => p.type.any fun t => p.value.fits t.representation

/-- Verify a linked program. -/
def verify (l : Linked) : Certificate := ⟨l.slotsBound, l.inBounds, l.inputsTyped⟩

end Linked

end PatchGraph
