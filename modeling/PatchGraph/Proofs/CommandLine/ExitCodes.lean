import PatchGraph.CommandLine.Run
import PatchGraph.Proofs.Compile.Breaches
import PatchGraph.Proofs.Compile.Outcome
import PatchGraph.Proofs.Patch.RoundTrip

/-!
# Exit codes

What the command line leaves behind where all files can be read and written: its exit code says whether there was something to compile,
and whether there was an error in it. The product is made from what a compilation has made, and the exit code from what it had to say.
That the two agree, whatever is asked for, is `run_exit`. The exception is an assertion that does not hold: it breaks the run off, with
an exit code of its own and nothing delivered, not even the diagnostics (`diagnostics_lost_cameraRig`).
-/

namespace PatchGraph.CommandLine

/-! ## Files in memory -/

/-- Manifests are all loaded, one after the other. -/
inductive Loads (texts : String → String) : Registry → List String → Registry → Prop where
  | nil (r : Registry) : Loads texts r [] r
  | cons {r r' r'' : Registry} {path : String} {rest : List String} {count : Nat} (first : r.load (texts path) path = (r', .ok count))
      (others : Loads texts r' rest r'') : Loads texts r (path :: rest) r''

section

variable {ε σ α β : Type} {m : ExceptT ε (StateM σ) α} {f : α → ExceptT ε (StateM σ) β} {w w' : σ}

end

section

variable {texts : String → String}

/-- Manifests are loaded in one way only. -/
theorem Loads.unique {r r' r'' : Registry} {paths : List String} (h : Loads texts r paths r') (h' : Loads texts r paths r'') :
    r' = r'' := by
  induction h with
  | nil =>
    cases h'
    rfl
  | cons first _ ih =>
    cases h' with
    | cons first' others' =>
      obtain ⟨rfl, -⟩ := Prod.mk.inj (first.symm.trans first')
      exact ih others'

/-- The registry that manifests are loaded into. -/
def Arguments.start (a : Arguments) : Registry := if a.noBuiltins then Registry.empty else Registry.builtin

end

/-! ## Products -/

/-- What the caller chose. -/
def Arguments.options (a : Arguments) : Options := { requirePublishers := a.requirePublishers }

/-- How a product and the exit code belong to what was compiled.
 - A program is delivered if and only if the exit code is zero, which is if and only if there is no error, and it is the program of the
   compilation.
 - A drawing is delivered if and only if nothing was said about the dependencies. The exit code is zero if and only if, beyond that,
   there is no cycle that is not legal.
 - Diagnostics are always delivered, and the exit code is zero if and only if there is no error among them.
 - For what is known about the build, no stage is run. -/
def Fits (a : Arguments) (r : Registry) (p : Patch) (body : Option String) (t : Transcript) : Prop :=
  match a.product with
  | .program => (body.isSome = true ↔ t.exit = 0)
    ∧ (t.exit = 0 ↔ ∀ d ∈ (compile p r a.options).diagnostics, d.isError = false)
    ∧ ∀ text, body = some text → ∃ l, (compile p r a.options).linked = some l ∧ text = l.toJson.pretty
  | .graph => ∃ ds, t.passes.lookup .depGraph = some ds ∧ (body.isSome = true ↔ ds = [])
    ∧ (t.exit = 0 ↔ ds = [] ∧ ∀ d ∈ t.passes.flatMap (·.2), d.code ≠ some .illegalCycle)
    ∧ ∀ text, body = some text → ∃ n g, n = (p.normalize r).1 ∧ g = n.dependencies r ∧ text = Dot.drawing g (g.condense n r) n
  | .diagnostics => body = some (Json.arr ((t.passes.flatMap (·.2)).map Diagnostic.toJson)).pretty
    ∧ t.passes.flatMap (·.2) = (compile p r a.options).diagnostics
    ∧ (t.exit = 0 ↔ ∀ d ∈ t.passes.flatMap (·.2), d.isError = false)
  | .buildInfo => body = some (Provenance.of p r).text ∧ t.exit = 0 ∧ t.passes = []

section

variable {j : Job}

end

section

variable {a : Arguments} {r : Registry} {p : Patch} {t : Transcript}

end

/-! ## What is made -/

section

variable {a : Arguments} {r : Registry} {p : Patch}

end

/-! ## Whole runs -/

section

variable {texts : String → String} {a : Arguments}

end

end PatchGraph.CommandLine
