import PatchGraph.Graph.Order
import PatchGraph.Program.Reduce
import PatchGraph.Registry.Chain
import PatchGraph.Time.Root
import PatchGraph.Typing
import PatchGraph.Writers

/-!
# Emitting a program

What the steps from a checked patch to a program share: what is known about the patch, the program so far with what there is to say
about it, and how a writer becomes a value of the type of its input.
-/

namespace PatchGraph

/-- All that is known about a patch that passed its checks. -/
structure Analysis where
  patch : Normalized
  types : TypeTable
  time : Time
  graph : DependencyGraph
  cycles : Condensation
  registry : Registry

namespace Analysis

/-- The entry of a block's type. -/
def entry? (a : Analysis) (b : BlockIx) : Option BlockEntry := (a.patch.block? b).bind fun x => a.registry.block? x.type

/-- The lowering of a block. -/
def lowering? (a : Analysis) (b : BlockIx) : Option Lowering := (a.entry? b).bind (·.lowering)

/-- The edge of a writer. -/
def edge? (a : Analysis) (w : Writer) : Option Edge := w.edge?.bind fun i => a.patch.edges[i]?

end Analysis

/-- The program so far and what there is to say about it. -/
structure Workbench where
  builder : Builder
  diagnostics : List Diagnostic := []

/-- A step of emitting a program. -/
abbrev Emit := StateM Workbench

namespace Emit

/-- A step of building. -/
def build {α : Type} (step : Build α) : Emit α :=
  modifyGet fun w => ((step.run w.builder).1, { w with builder := (step.run w.builder).2 })

/-- Say something. -/
def report (d : Diagnostic) : Emit Unit := modify fun w => { w with diagnostics := w.diagnostics ++ [d] }

end Emit

/-- The slot of each bus that has one. -/
abbrev BusSlots := List (Option SlotId)

/-- The value of a bus. -/
def readBus (slots : BusSlots) (b : BusIx) : Build (Option ValueRef) :=
  match slots[b.index]?.join with
  | none => return none
  | some s => Build.readSlot s

/-- The default of an input of a type. -/
def fallbackValue (c : ConstId) (t : ValueType) : ValueRef := .const c (t.withWorld .scalar)

/-- The code for a step that could not be taken. -/
def ChainError.code (e : ChainError) : DiagCode :=
  match e.kind with
  | .adapter => .unsupportedAdapter
  | .lens => .unsupportedLens

/-- The diagnostic for an edge with a step that could not be taken. -/
def ChainError.diagnostic (e : ChainError) (edge : Edge) : Diagnostic :=
  (Diagnostic.error e.code (.edge edge.id) s!"{e.message} on edge '{edge.id}'").withHint
    "remove the step or use an IR-compilable equivalent"

/-- Take a value through the steps of its edge, if it has one, and to the representation of a type. A step that cannot be taken is
reported; a value that cannot be represented is dropped without a word. -/
def finishTerm (r : Registry) (edge : Option Edge) (t : ValueType) (v : ValueRef) : Emit (Option ValueRef) :=
  match edge with
  | none => Emit.build (Build.coerce v t)
  | some e => do
    match ← Emit.build (r.applyChain e v).run with
    | .ok w => Emit.build (Build.coerce w t)
    | .error err =>
      Emit.report (err.diagnostic e)
      return none

/-! ## Policies -/

/-- The diagnostic for more writers than one where only one is allowed. -/
def severalWriters (locator : Locator) (ws : List Writer) : Diagnostic :=
  let ids := String.intercalate ", " (ws.map Writer.id)
  (Diagnostic.error .severalWriters locator s!"combine mode 'error' allows one writer, found {ws.length}: {ids}").withRelated
    "writer" ((ws.filter fun w => w.edge?.isSome).map fun w => .edge w.id)

/-- What is wrong with the policy of an input of a type, given its writers. -/
def policyProblem? (t : ValueType) (p : CombinePolicy) (ws : List Writer) (locator : Locator) : Option Diagnostic :=
  if !t.allows p.mode then
    some (.error .combineNotAllowed locator s!"combine mode '{p.mode.name}' is not valid for {t.display}")
  else if p.mode = .error ∧ 1 < ws.length then some (severalWriters locator ws)
  else none

end PatchGraph
