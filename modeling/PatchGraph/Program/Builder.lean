import PatchGraph.Program.Basic

/-!
# Building programs

A builder holds the tables of a program that is being made. Tables only grow: an entry keeps its name, and the only entries that
change are slots, which are given a source after they were reserved. Constants are shared: values of the same key are always the same
constant, which is found by its key.
-/

namespace PatchGraph

/-- The constants of a program, each value once, and where the constant of each key is. -/
structure Pool where
  values : Array Value
  places : List (Value.Key × ConstId)
  /-- The two tables are inverse to each other. -/
  inverse : ∀ (k : Value.Key) (c : ConstId), places.lookup k = some c ↔ (values[c.index]?).map Value.key = some k
  deriving DecidableEq

namespace Pool

instance : EmptyCollection Pool where
  emptyCollection := ⟨#[], [], by simp⟩

instance : Inhabited Pool := ⟨{}⟩

/-- A value whose key the pool does not know becomes a new constant. -/
def add (p : Pool) (v : Value) (h : p.places.lookup v.key = none) : Pool where
  values := p.values.push v
  places := (v.key, ⟨p.values.size⟩) :: p.places
  inverse k c := by
    have hold := p.inverse k c
    rw [List.lookup_cons, Array.getElem?_push]
    by_cases hk : k = v.key
    · subst hk
      rw [beq_self_eq_true]
      by_cases hc : c.index = p.values.size
      · rw [if_pos hc, ← hc]
        exact ⟨fun _ => rfl, fun _ => rfl⟩
      · rw [if_neg hc, ← hold, h]
        exact ⟨fun hnew => absurd (congrArg ConstId.index (Option.some.inj hnew)).symm hc, fun hknown => by cases hknown⟩
    · rw [beq_false_of_ne hk]
      refine hold.trans ?_
      by_cases hc : c.index = p.values.size
      · simp [hc, Ne.symm hk]
      · rw [if_neg hc]

/-- The constant of a value, which is added if the pool does not know its key. -/
def intern (p : Pool) (v : Value) : ConstId × Pool :=
  match h : p.places.lookup v.key with
  | some c => (c, p)
  | none => (⟨p.values.size⟩, p.add v h)

/-- The constant of a value is one whose value has the same key, or there is none and the value becomes the last constant. -/
theorem intern_cases (p : Pool) (v : Value) :
    (∃ c, (p.values[c.index]?).map Value.key = some v.key ∧ p.intern v = (c, p))
      ∨ ∃ h, p.intern v = (⟨p.values.size⟩, p.add v h) := by
  unfold intern
  split
  · next c h => exact .inl ⟨c, (p.inverse _ c).1 h, rfl⟩
  · next h => exact .inr ⟨h, rfl⟩

/-- The value of a constant. -/
def get? (p : Pool) (c : ConstId) : Option Value := p.values[c.index]?

/-- The number of constants. -/
def size (p : Pool) : Nat := p.values.size

end Pool

/-- An assertion that does not hold: constants or handles, which no node combines, are to be combined by a mode that picks none of
them. -/
structure Breach where
  type : ValueType
  mode : CombineMode
  deriving DecidableEq

/-- The wording of a breach. -/
def Breach.message (x : Breach) : String :=
  s!"combine mode {x.mode.title} reached a {x.type.representation.title} port"

/-- The tables of a program that is being made. -/
structure Builder where
  consts : Pool := {}
  signals : Array SignalExpr := #[]
  fields : Array FieldExpr := #[]
  events : Array EventExpr := #[]
  slots : Array Slot := #[]
  states : Array StateCell := #[]
  handles : Array Handle := #[]
  renderSinks : Array Sink := #[]
  cameras : Array Sink := #[]
  schedule : Array ScheduleStep := #[]
  timeModel : Option TimeModel := none
  /-- The assertions that did not hold on the way, in order. The first one breaks the program off where assertions are checked. -/
  breaches : List Breach := []
  deriving DecidableEq, Inhabited

namespace Builder

/-- The value of a constant. -/
def constant? (b : Builder) (c : ConstId) : Option Value := b.consts.get? c

/-- The type of a slot. -/
def slotType? (b : Builder) (s : SlotId) : Option ValueType := (b.slots[s.index]?).map (·.type)

/-- Whether a slot has a source. -/
def isBound (b : Builder) (s : SlotId) : Bool :=
  match b.slots[s.index]? with
  | some slot => slot.source != .unbound
  | none => false

/-- The type of a value: that of its slot, or the constant's own. -/
def typeOf? (b : Builder) : ValueRef → Option ValueType
  | .const _ t => some t
  | .signal _ s | .field _ s | .event _ s => b.slotType? s
  | .special _ => none

/-- The finished program. -/
def finish (b : Builder) : Program where
  timeModel := b.timeModel
  consts := b.consts.values.toList
  signals := b.signals.toList
  fields := b.fields.toList
  events := b.events.toList
  slots := b.slots.toList
  states := b.states.toList
  handles := b.handles.toList
  renderSinks := b.renderSinks.toList
  cameras := b.cameras.toList
  schedule := b.schedule.toList

end Builder

/-- A step of building. -/
abbrev Build := StateM Builder

namespace Build

/-- Assert something. -/
def assert (holds : Bool) (breach : Breach) : Build Unit :=
  modify fun b => if holds then b else { b with breaches := b.breaches ++ [breach] }

/-- The constant of a value. -/
def intern (v : Value) : Build ConstId :=
  modifyGet fun b => ((b.consts.intern v).1, { b with consts := (b.consts.intern v).2 })

/-- The constant of a value, under a type. -/
def constant (v : Value) (t : ValueType) : Build ValueRef := do
  return .const (← intern v) t

/-- A new signal expression. -/
def signal (e : SignalExpr) : Build SignalId :=
  modifyGet fun b => (⟨b.signals.size⟩, { b with signals := b.signals.push e })

/-- A new field expression. -/
def field (e : FieldExpr) : Build FieldId :=
  modifyGet fun b => (⟨b.fields.size⟩, { b with fields := b.fields.push e })

/-- A new event expression. -/
def event (e : EventExpr) : Build EventId :=
  modifyGet fun b => (⟨b.events.size⟩, { b with events := b.events.push e })

/-! ## Slots -/

/-- A new slot without a source. -/
def reserve (t : ValueType) : Build SlotId :=
  modifyGet fun b => (⟨b.slots.size⟩, { b with slots := b.slots.push ⟨t, .unbound⟩ })

/-- Give a slot a source; false if there is no such slot. -/
def bind (s : SlotId) (source : SlotSource) : Build Bool :=
  modifyGet fun b =>
    match b.slots[s.index]? with
    | some slot => (true, { b with slots := b.slots.setIfInBounds s.index { slot with source } })
    | none => (false, b)

/-- A new slot with a source. -/
def slotFor (t : ValueType) (source : SlotSource) : Build SlotId :=
  modifyGet fun b => (⟨b.slots.size⟩, { b with slots := b.slots.push ⟨t, source⟩ })

/-- A signal expression as a value, in a slot of its own. -/
def signalValue (e : SignalId) (t : ValueType) : Build ValueRef := do
  return .signal e (← slotFor t (.signal e))

/-- A field expression as a value, in a slot of its own. -/
def fieldValue (e : FieldId) (t : ValueType) : Build ValueRef := do
  return .field e (← slotFor t (.field e))

/-- An event expression as a value, in a slot of its own. -/
def eventValue (e : EventId) (t : ValueType) : Build ValueRef := do
  return .event e (← slotFor t (.event e))

/-- A value that reads whatever ends up in a slot. -/
def readSlot (s : SlotId) : Build (Option ValueRef) := do
  match (← get).slotType? s with
  | none => return none
  | some t =>
    match t.representation with
    | .signal => return some (.signal (← signal (.read s)) s)
    | .field => return some (.field (← field (.read s)) s)
    | .event => return some (.event (← event (.read s)) s)
    | .const | .handle | .none => return none

/-! ## Views of a value -/

/-- A value as a signal expression; a constant is promoted. -/
def asSignal : ValueRef → Build (Option SignalId)
  | .const id _ => do return some (← signal (.const id))
  | .signal e _ => return some e
  | .field _ _ | .event _ _ | .special _ => return none

/-- A value as a field expression; a constant or a signal is broadcast. -/
def asField : ValueRef → Build (Option FieldId)
  | .const id _ => do return some (← field (.const id))
  | .signal e _ => do return some (← field (.broadcast e))
  | .field e _ => return some e
  | .event _ _ | .special _ => return none

/-- A value as an event expression. -/
def asEvent : ValueRef → Build (Option EventId)
  | .event e _ => return some e
  | .const _ _ | .signal _ _ | .field _ _ | .special _ => return none

/-- A value in the representation of a type: a constant is promoted and a constant or a signal is broadcast where the worlds differ. -/
def coerce (v : ValueRef) (t : ValueType) : Build (Option ValueRef) :=
  match t.representation, v with
  | .const, .const id _ => return some (.const id t)
  | .signal, .signal e s => return some (.signal e s)
  | .signal, .const id _ => do return some (← signalValue (← signal (.const id)) t)
  | .field, .field e s => return some (.field e s)
  | .field, .const id _ => do return some (← fieldValue (← field (.const id)) t)
  | .field, .signal e _ => do return some (← fieldValue (← field (.broadcast e)) t)
  | .event, .event e s => return some (.event e s)
  | .handle, .special h => return some (.special h)
  | _, _ => return none

/-! ## States, handles and the schedule -/

/-- A new state cell. -/
def state (owner : BlockIx) (init : Value) : Build StateId := do
  let c ← intern init
  modifyGet fun b => (⟨b.states.size⟩, { b with states := b.states.push ⟨owner, c⟩ })

/-- A new handle. -/
def handle (owner : BlockIx) (kind : HandleKind) : Build HandleId :=
  modifyGet fun b => (⟨b.handles.size⟩, { b with handles := b.handles.push ⟨owner, kind⟩ })

/-- A new render sink. -/
def renderSink (s : Sink) : Build Unit := modify fun b => { b with renderSinks := b.renderSinks.push s }

/-- A new camera. -/
def camera (s : Sink) : Build Unit := modify fun b => { b with cameras := b.cameras.push s }

/-- A further step of the schedule. -/
def step (s : ScheduleStep) : Build Unit := modify fun b => { b with schedule := b.schedule.push s }

/-- Set the time model. -/
def timeModel (m : TimeModel) : Build Unit := modify fun b => { b with timeModel := some m }

end Build

end PatchGraph
