import PatchGraph.CommandLine.Arguments
import PatchGraph.Compile.Pipeline
import PatchGraph.Graph.Dot
import PatchGraph.Provenance
import PatchGraph.Registry.Builtin

/-!
# The command line

Manifests are read first, then the patch; then the product is made and written. Files are reached through a record of two operations,
so that the whole of the command line can also be run on files in memory.
-/

namespace PatchGraph.CommandLine

/-- Why a file could not be read or written. -/
inductive FileError where
  | notFound
  | notDirectory
  | isDirectory
  | other (message : String)
  deriving DecidableEq

/-- The wording of an error. -/
def FileError.message : FileError → String
  | .notFound => "No such file or directory (os error 2)"
  | .notDirectory => "Not a directory (os error 20)"
  | .isDirectory => "Is a directory (os error 21)"
  | .other message => message

/-- How files are read and written. -/
structure Files (m : Type → Type) where
  read : String → m (Except FileError String)
  write : String → String → m (Except FileError Unit)

/-- Why there is no product at all. -/
inductive RunError where
  | file (path : String) (error : FileError)
  | patch (path : String) (problem : Json.Problem)
  | registry (error : RegistryError)
  | breach (breach : Breach)

/-- The wording of an error. -/
def RunError.message : RunError → String
  | .file path e => s!"{path}: {e.message}"
  | .patch path p => s!"{path}: invalid patch: {p.message}"
  | .registry e => e.message
  | .breach x => x.message

/-- The exit code for an error. An assertion that does not hold has its own. -/
def RunError.exit : RunError → Nat
  | .breach _ => 101
  | _ => 2

/-! ## Products -/

/-- What was made: the stages that were run for it with what they had to say, its text, if there is one, what is said on the way, and
whether there was no error. -/
structure Outcome where
  passes : List (Stage × List Diagnostic)
  body : Option String
  said : List Diagnostic
  success : Bool

/-- Compile a patch as far as a product needs it. -/
def compileFor (a : Arguments) (r : Registry) (p : Patch) : Compilation.Run :=
  Compilation.run { patch := p, registry := r, options := { requirePublishers := a.requirePublishers } }
    (if a.product = .graph then .cycleCheck else .link)

/-- The drawing of the dependencies of a patch that was compiled so far. -/
def drawing? (c : Compilation) : Option String :=
  match c.artifacts.graph, c.artifacts.cycles, c.artifacts.normalized with
  | some g, some k, some n => some (Dot.drawing g k n)
  | _, _, _ => none

/-- Make a product from a patch, with assertions checked. A program with errors is not written. -/
def make (a : Arguments) (r : Registry) (p : Patch) : Except Breach Outcome :=
  match a.product with
  | .buildInfo => return ⟨[], some (Provenance.of p r).text, [], true⟩
  | .program => do
    let run ← (compileFor a r p).asserted
    let body := if run.failure.isNone then run.state.artifacts.linked.map fun l => l.toJson.pretty else none
    return ⟨run.passes, body, run.state.diagnostics, !hasErrors run.state.diagnostics⟩
  | .graph => do
    let run ← (compileFor a r p).asserted
    return ⟨run.passes, drawing? run.state, run.state.diagnostics, !hasErrors run.state.diagnostics⟩
  | .diagnostics => do
    let run ← (compileFor a r p).asserted
    let body := (Json.arr (run.state.diagnostics.map Diagnostic.toJson)).pretty
    return ⟨run.passes, some body, [], !hasErrors run.state.diagnostics⟩

/-! ## Running -/

/-- What the command line leaves behind: its exit code, the stages it ran with what they had to say, what it printed, what it said about
the patch and why it broke off. -/
structure Transcript where
  exit : Nat
  passes : List (Stage × List Diagnostic) := []
  printed : String := ""
  said : List String := []
  error : Option String := none
  deriving DecidableEq

variable {m : Type → Type} [Monad m]

/-- Read a file. -/
def readFile (files : Files m) (path : String) : ExceptT RunError m String := do
  match ← files.read path with
  | .ok text => return text
  | .error e => throw (.file path e)

/-- Load manifests in order. -/
def loadManifests (files : Files m) : Registry → List String → ExceptT RunError m Registry
  | r, [] => return r
  | r, path :: rest => do
    let text ← readFile files path
    match r.load text path with
    | (r, .ok _) => loadManifests files r rest
    | (_, .error e) => throw (.registry e)

/-- Read the manifests and the patch, and make the product. -/
def prepare (files : Files m) (a : Arguments) : ExceptT RunError m Outcome := do
  let r ← loadManifests files (if a.noBuiltins then Registry.empty else Registry.builtin) a.registries
  let text ← readFile files a.patch
  match Patch.ofText text with
  | .error p => throw (.patch a.patch p)
  | .ok p =>
    match make a r p with
    | .error x => throw (.breach x)
    | .ok o => return o

/-- A text as it is printed: it ends its last line. -/
def printed (body : String) : String := if body.endsWith '\n' then body else body ++ "\n"

/-- Write a product to its file, or print it. -/
def deliver (files : Files m) (output : Option String) (body : String) : ExceptT RunError m String :=
  match output with
  | none => return printed body
  | some path => do
    match ← files.write path body with
    | .ok _ => return ""
    | .error e => throw (.file path e)

/-- Make and deliver what the arguments ask for. -/
def perform (files : Files m) (a : Arguments) : m Transcript := do
  match ← (prepare files a).run with
  | .error e => return { exit := e.exit, error := some e.message }
  | .ok o =>
    let said := o.said.map Diagnostic.display
    let exit := if o.success then 0 else 1
    match o.body with
    | none => return { exit, passes := o.passes, said }
    | some body =>
      match ← (deliver files a.output body).run with
      | .ok printed => return { exit, passes := o.passes, printed, said }
      | .error e => return { exit := e.exit, passes := o.passes, said, error := some e.message }

/-- How the command line is used. -/
def usage : String :=
  "Usage: patchc [OPTIONS] <PATCH>\n\n" ++
  "  -r, --registry <REGISTRY>     block and transform manifest (repeatable)\n" ++
  "      --emit <EMIT>             ir, graph, diagnostics or build-info (default: ir)\n" ++
  "  -o, --output <OUTPUT>         output file\n" ++
  "      --require-bus-publishers  treat buses without publishers as errors\n" ++
  "      --no-builtins             start from an empty registry\n" ++
  "      --verbose                 log what is done\n" ++
  "  -h, --help                    print help\n" ++
  "  -V, --version                 print version\n"

/-- Run the command line. -/
def run (files : Files m) (arguments : List String) : m Transcript :=
  match Invocation.parse arguments with
  | .error e => return { exit := 2, error := some e.message }
  | .ok .help => return { exit := 0, printed := usage }
  | .ok .version => return { exit := 0, printed := s!"patchc {compilerVersion}\n" }
  | .ok (.run a) => perform files a

end PatchGraph.CommandLine
