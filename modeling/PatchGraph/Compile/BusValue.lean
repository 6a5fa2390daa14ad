import PatchGraph.Compile.Lowered

/-!
# The values of buses

A bus that lives in a slot gets it before any block is lowered, so that blocks can read it in any order. When the blocks are lowered,
the publishers of each bus are combined and the slot is bound to the result. A bus without publishers holds its default, or the
zero of its domain; an event bus without publishers never occurs.
-/

namespace PatchGraph

/-- What became of a bus: how many publishers it has, how many of them gave a value, its value, and whether something was wrong. -/
structure BusOutcome where
  publishers : Nat
  effective : Nat := 0
  failed : Bool := false
  value : Option ValueRef := none
  deriving DecidableEq

/-- Reserve slots for the buses that live in one. -/
def reserveBusSlots : List (Option ValueType) → Build BusSlots
  | [] => return []
  | t :: rest => do
    let slot : Option SlotId ← match t with
      | none => pure none
      | some t => if t.isSlotted then some <$> Build.reserve t else pure none
    return slot :: (← reserveBusSlots rest)

namespace BusValue

/-- The default of a bus of a type. -/
def default (t : ValueType) (value : Option Value) : Build (Option ValueRef) :=
  match t.representation with
  | .event => do return some (← Build.eventValue (← Build.event .never) t)
  | .signal =>
    match value.or t.domain.zero? with
    | none => return none
    | some v => do return some (← Build.signalValue (← Build.signal (.const (← Build.intern v))) t)
  | .field =>
    match value.or t.domain.zero? with
    | none => return none
    | some v => do return some (← Build.fieldValue (← Build.field (.const (← Build.intern v))) t)
  | .const | .handle | .none => return none

/-- What is wrong with how a bus of a type combines its publishers. -/
def policyProblem? (b : Bus) (t : ValueType) (publishers : List Writer) : Option Diagnostic :=
  if !t.allows b.combine then
    some (.error .combineNotAllowed (.bus b.id)
      s!"combine mode '{b.combine.name}' is not valid for bus '{b.id}' ({t.display})")
  else if b.combine = .error ∧ 1 < publishers.length then some (severalWriters (.bus b.id) publishers)
  else none

/-- The diagnostic for a publisher with a step that could not be taken. -/
def publisherFailed (b : Bus) (edge : Edge) (e : ChainError) : Diagnostic :=
  (Diagnostic.error .busFailed (.bus b.id) s!"bus '{b.id}' cannot lower publisher edge '{edge.id}'").withCause
    e.message (some (.edge edge.id))

/-- The diagnostic for a bus without a value. -/
def noValue (b : Bus) (t : ValueType) : Diagnostic :=
  (Diagnostic.error .busFailed (.bus b.id) s!"bus '{b.id}' has no value and no default").withHint
    s!"declare a default for {t.display}"

/-- The value that a publisher gives to a bus of a type, if it has one, and whether one of its steps failed. -/
def term (a : Analysis) (l : Lowered) (b : Bus) (t : ValueType) (w : Writer) : Emit (Option ValueRef × Bool) :=
  match w, a.edge? w with
  | .wire _ _ source port, some edge =>
    match l.output? source port with
    | none => return (none, false)
    | some v => do
      match ← Emit.build (a.registry.applyChain edge v).run with
      | .ok w => return (← Emit.build (Build.coerce w t), false)
      | .error e =>
        Emit.report (publisherFailed b edge e)
        return (none, true)
  | _, _ => return (none, false)

/-- The values that publishers give to a bus of a type, and whether a step of one of them failed. -/
def terms (a : Analysis) (l : Lowered) (b : Bus) (t : ValueType) : List Writer → Emit (List ValueRef × Bool)
  | [] => return ([], false)
  | w :: rest => do
    let (first, failed) ← term a l b t w
    let (more, failedLater) ← terms a l b t rest
    return (first.toList ++ more, failed || failedLater)

/-- Bind the slot of a bus of a type to the values that its publishers gave, combined, or to its default. -/
def settle (b : Bus) (t : ValueType) (slot : SlotId) (publishers : Nat) (values : List ValueRef) (failed : Bool) :
    Emit BusOutcome := do
  let value ← Emit.build <|
    if values.isEmpty then default t b.default else Build.reduce t (.multi b.combine) values
  match value with
  | none =>
    Emit.report (noValue b t)
    return { publishers, effective := values.length, failed := true }
  | some v =>
    match v.source? with
    | none => pure ()
    | some source => do let _ ← Emit.build (Build.bind slot source)
    return { publishers, effective := values.length, failed, value := some v }

/-- Give a bus of a type, which lives in a slot, its value. Publishers that the policy does not allow are not looked at. -/
def fill (a : Analysis) (l : Lowered) (b : Bus) (t : ValueType) (slot : SlotId) (publishers : List Writer) (failed : Bool) :
    Emit BusOutcome :=
  if failed then settle b t slot publishers.length [] true
  else do
    let (values, stepFailed) ← terms a l b t publishers
    settle b t slot publishers.length values stepFailed

/-- Give a bus of a type its value, if it has a slot for it. -/
def supply (a : Analysis) (slots : BusSlots) (l : Lowered) (ix : BusIx) (b : Bus) (t : ValueType) (failed : Bool) :
    Emit BusOutcome :=
  match slots[ix.index]?.join with
  | none => return { publishers := (a.patch.publishers b.id).length, failed }
  | some slot => fill a l b t slot (a.patch.publishers b.id) failed

/-- Lower a bus. -/
def lower (a : Analysis) (slots : BusSlots) (l : Lowered) (ix : BusIx) (b : Bus) : Emit BusOutcome :=
  match a.types.busType? ix with
  | none => return { publishers := (a.patch.publishers b.id).length }
  | some t =>
    match policyProblem? b t (a.patch.publishers b.id) with
    | none => supply a slots l ix b t false
    | some d => do
      Emit.report d
      supply a slots l ix b t true

/-- Lower buses in order. -/
def lowerAll (a : Analysis) (slots : BusSlots) (l : Lowered) : List (BusIx × Bus) → Emit (List BusOutcome)
  | [] => return []
  | (ix, b) :: rest => do
    let first ← lower a slots l ix b
    return first :: (← lowerAll a slots l rest)

end BusValue

/-- Lower the buses of a patch. -/
def Analysis.lowerBuses (a : Analysis) (slots : BusSlots) (l : Lowered) : Emit (List BusOutcome) :=
  BusValue.lowerAll a slots l a.patch.placedBuses

end PatchGraph
