import PatchGraph.Compile.Certificate
import PatchGraph.Compile.Stage

/-!
# Compiling patches

A compilation runs stages and keeps what they make. The stages that check a patch stop it at the first stage with an error. The later
stages go on after an error, so that as much as possible of the program is there to look at.
-/

namespace PatchGraph

/-- What the stages have made so far. -/
structure Artifacts where
  normalized : Option Normalized := none
  /-- The constants of the normalized patch, until the program takes them. -/
  consts : Option Pool := none
  typed : Option Typed := none
  time : Option Time := none
  graph : Option DependencyGraph := none
  cycles : Option Condensation := none
  busSlots : Option BusSlots := none
  lowered : Option Lowered := none
  buses : Option (List BusOutcome) := none
  linked : Option Linked := none
  certificate : Option Certificate := none

/-- A compilation of a patch. -/
structure Compilation where
  patch : Patch
  registry : Registry
  options : Options := {}
  artifacts : Artifacts := {}
  /-- The program that is being made, from the lowering of blocks to linking. -/
  builder : Option Builder := none
  diagnostics : List Diagnostic := []
  hasError : Bool := false
  /-- The first stage that had an error. -/
  failed : Option Stage := none
  /-- The assertions that did not hold while the program was made. -/
  breaches : List Breach := []

namespace Artifacts

/-- All that is known about the patch, once all checks were made. -/
def analysis? (a : Artifacts) (r : Registry) : Option Analysis :=
  match a.normalized, a.typed, a.time, a.graph, a.cycles with
  | some patch, some typed, some time, some graph, some cycles => some ⟨patch, typed.table, time, graph, cycles, r⟩
  | _, _, _, _, _ => none

end Artifacts

/-- The diagnostic for a program that does not pass its verification. -/
def Certificate.diagnostic (c : Certificate) : Diagnostic :=
  .error .unverified .patch ("IR verification failed: " ++ String.intercalate ", " c.failures)

namespace Compilation

/-! ## Stages -/

/-- Normalize the patch. -/
def normalize (c : Compilation) : Compilation × List Diagnostic :=
  let (n, consts) := c.patch.normalize c.registry
  ({ c with artifacts := { c.artifacts with normalized := some n, consts := some consts } }, [])

/-- Find the types of the patch. -/
def typeGraph (c : Compilation) (n : Normalized) : Compilation × List Diagnostic :=
  ({ c with artifacts := { c.artifacts with typed := some (n.typed c.registry) } }, n.typeDiagnostics c.registry)

/-- Find the time of the patch. -/
def timeTopology (c : Compilation) (n : Normalized) : Compilation × List Diagnostic :=
  match Time.resolve n c.registry with
  | .ok t => ({ c with artifacts := { c.artifacts with time := some t } }, [])
  | .error d => ({ c with artifacts := { c.artifacts with time := none } }, [d])

/-- Find the dependencies of the patch. -/
def depGraph (c : Compilation) (n : Normalized) : Compilation × List Diagnostic :=
  ({ c with artifacts := { c.artifacts with graph := some (n.dependencies c.registry) } },
    n.dependencyDiagnostics c.registry)

/-- Check the cycles of the patch. -/
def cycleCheck (c : Compilation) (n : Normalized) (g : DependencyGraph) : Compilation × List Diagnostic :=
  ({ c with artifacts := { c.artifacts with cycles := some (g.condense n c.registry) } }, g.cycleDiagnostics n c.registry)

/-- Start a program from the constants of the patch and lower the blocks. -/
def lowerBlocks (c : Compilation) (a : Analysis) (consts : Pool) : Compilation × List Diagnostic :=
  let emit : Emit (BusSlots × Lowered) := do
    Emit.build (Build.timeModel a.time.model)
    let slots ← Emit.build (reserveBusSlots a.types.buses)
    return (slots, ← a.lowerBlocks slots)
  let ((slots, lowered), w) := emit.run { builder := { consts } }
  ({ c with
    artifacts := { c.artifacts with consts := none, busSlots := some slots, lowered := some lowered }
    builder := some w.builder
    breaches := w.builder.breaches }, w.diagnostics)

/-- Lower the buses. -/
def lowerBuses (c : Compilation) (a : Analysis) (builder : Builder) (slots : BusSlots) (l : Lowered) :
    Compilation × List Diagnostic :=
  let (buses, w) := (a.lowerBuses slots l).run { builder }
  ({ c with
    artifacts := { c.artifacts with buses := some buses }
    builder := some w.builder
    breaches := w.builder.breaches }, w.diagnostics)

/-- Link the program and verify it. What the verification finds is only said of a program without any error. -/
def link (c : Compilation) (a : Analysis) (builder : Builder) (slots : BusSlots) (l : Lowered) (buses : List BusOutcome) :
    Compilation × List Diagnostic :=
  let (linked, w) := (a.link slots l buses c.options).run { builder }
  let cert := linked.verify
  let unverified := if c.hasError || hasErrors w.diagnostics || cert.passes then [] else [cert.diagnostic]
  ({ c with
    artifacts := { c.artifacts with linked := some linked, certificate := some cert }
    builder := none
    breaches := w.builder.breaches }, w.diagnostics ++ unverified)

/-- Run a stage: what it makes and what it has to say; none if something it needs is not there. -/
def execute (c : Compilation) (s : Stage) : Option (Compilation × List Diagnostic) :=
  let a := c.artifacts
  match s with
  | .normalize => some c.normalize
  | .typeGraph => do return c.typeGraph (← a.normalized)
  | .timeTopology => do return c.timeTopology (← a.normalized)
  | .depGraph => do return c.depGraph (← a.normalized)
  | .cycleCheck => do return c.cycleCheck (← a.normalized) (← a.graph)
  | .lowerBlocks => do return c.lowerBlocks (← a.analysis? c.registry) (← a.consts)
  | .lowerBuses => do return c.lowerBuses (← a.analysis? c.registry) (← c.builder) (← a.busSlots) (← a.lowered)
  | .link => do return c.link (← a.analysis? c.registry) (← c.builder) (← a.busSlots) (← a.lowered) (← a.buses)

/-! ## Runs -/

/-- Take down what a stage had to say. -/
def record (c : Compilation) (s : Stage) (ds : List Diagnostic) : Compilation :=
  { c with
    diagnostics := c.diagnostics ++ ds
    hasError := c.hasError || hasErrors ds
    failed := if hasErrors ds then c.failed.or (some s) else c.failed }

/-- A run of stages: the compilation afterwards, the stages that were run with what they had to say, and the stage to blame if
there was an error. -/
structure Run where
  state : Compilation
  passes : List (Stage × List Diagnostic)
  failure : Option Stage

/-- Run stages in order. -/
def runStages : List Stage → Compilation → Run
  | [], c => ⟨c, [], c.failed⟩
  | s :: rest, c =>
    match c.execute s with
    | none => ⟨c, [], some s⟩
    | some (c', ds) =>
      let c' := c'.record s ds
      if s.isFront && hasErrors ds then ⟨c', [(s, ds)], some s⟩
      else
        let run := runStages rest c'
        { run with passes := (s, ds) :: run.passes }

/-- Run all stages that a stage needs, and the stage. -/
def run (c : Compilation) (terminal : Stage) : Run := runStages terminal.required c

/-- A run where assertions are checked: the first one that does not hold breaks it off. -/
def Run.asserted (run : Run) : Except Breach Run :=
  match run.state.breaches with
  | [] => .ok run
  | x :: _ => .error x

end Compilation

/-- The wording for a failed compilation. -/
def Stage.failureMessage (s : Stage) : String := s!"compilation failed in pass {s.title}"

/-- The result of a compilation. The program is there if the patch passed all checks, even if lowering had errors. -/
structure CompileResult where
  linked : Option Linked
  diagnostics : List Diagnostic
  failure : Option Stage

/-- What a run leaves. -/
def Compilation.Run.result (run : Run) : CompileResult := ⟨run.state.artifacts.linked, run.state.diagnostics, run.failure⟩

/-- Compile a patch, with no regard to assertions. -/
def compile (p : Patch) (r : Registry) (options : Options) : CompileResult :=
  (Compilation.run { patch := p, registry := r, options } .link).result

/-- The assertions that do not hold when a patch is compiled, in order. -/
def breaches (p : Patch) (r : Registry) (options : Options) : List Breach :=
  (Compilation.run { patch := p, registry := r, options } .link).state.breaches

/-- Compile a patch where assertions are checked. -/
def compileAsserted (p : Patch) (r : Registry) (options : Options) : Except Breach CompileResult :=
  (Compilation.run { patch := p, registry := r, options } .link).asserted.map (·.result)

end PatchGraph
