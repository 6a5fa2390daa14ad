import PatchGraph.Patch.Basic
import PatchGraph.Lowering
import PatchGraph.Transform

/-!
# Registries

A registry says which block types and which transforms there are. A declaration is plain data; where it names a lowering or a
transform rule, the registry holds that beside it. A name is declared once: a second declaration is an error and changes nothing.
-/

namespace PatchGraph

/-! ## Declarations -/

/-- Which kind of time a block type is the root of. -/
inductive TimeRootKind where
  | finite | cyclic | infinite
  deriving DecidableEq

/-- The declaration of an input: its type as a text, what it holds when nothing is connected, how several writers are combined, and
whether it may stay without a writer. -/
structure InputDecl where
  id : String
  type : String
  default : Option Value := none
  combine : Option CombinePolicy := none
  optional : Bool := false
  deriving DecidableEq, Inhabited

/-- The declaration of an output. -/
structure OutputDecl where
  id : String
  type : String
  deriving DecidableEq, Inhabited

/-- The declaration of a block type. -/
structure BlockDecl where
  type : String
  inputs : List InputDecl := []
  outputs : List OutputDecl := []
  /-- Whether its output at a moment is independent of its input at that moment, so that cycles may run through it. -/
  stateBoundary : Bool := false
  timeRoot : Option TimeRootKind := none
  /-- The name of the kind it is lowered by. -/
  lowering : Option String := none
  deriving DecidableEq, Inhabited

namespace BlockDecl

/-- The place of the first input of a name. -/
def inputIndex? (d : BlockDecl) (port : String) : Option Nat := d.inputs.findIdx? (·.id = port)

/-- The place of the first output of a name. -/
def outputIndex? (d : BlockDecl) (port : String) : Option Nat := d.outputs.findIdx? (·.id = port)

/-- The first input of a name. -/
def input? (d : BlockDecl) (port : String) : Option InputDecl := d.inputs.find? (·.id = port)

end BlockDecl

/-- What a transform may do: an adapter changes types, a lens does not. -/
inductive TransformKind where
  | adapter | lens
  deriving DecidableEq

/-- The declaration of a transform. -/
structure TransformDecl where
  id : String
  kind : TransformKind
  effect : TypeEffect := {}
  /-- The name of the rule it is compiled by. -/
  compiler : Option String := none
  deriving DecidableEq

/-- A declaration. -/
inductive Declaration where
  | block (d : BlockDecl)
  | transform (d : TransformDecl)
  deriving DecidableEq

/-! ## Entries -/

/-- A registered block type and where its declaration came from. -/
structure BlockEntry where
  decl : BlockDecl
  lowering : Option Lowering
  origin : String

/-- A registered transform and where its declaration came from. -/
structure TransformEntry where
  decl : TransformDecl
  transform : Option Transform
  origin : String

/-- A registry. Adapters and lenses are apart: one name may be both. -/
structure Registry where
  blocks : Dict BlockEntry := {}
  adapters : Dict TransformEntry := {}
  lenses : Dict TransformEntry := {}

instance : Inhabited Registry := ⟨{}⟩

/-- Why a declaration was refused. -/
inductive RegistryError where
  | manifest (origin : String) (problem : Json.Problem)
  | duplicateBlock (name first second : String)
  | duplicateTransform (id first second : String)
  | unknownLowering (block lowering origin : String)
  | unknownCompiler (transform compiler origin : String)

/-- The wording of an error. -/
def RegistryError.message : RegistryError → String
  | .manifest origin problem => s!"{origin}: invalid manifest: {problem.message}"
  | .duplicateBlock name first second => s!"duplicate block type '{name}': first defined in {first}, redefined in {second}"
  | .duplicateTransform id first second => s!"duplicate transform '{id}': first defined in {first}, redefined in {second}"
  | .unknownLowering block lowering origin => s!"{origin}: block type '{block}' names unknown lowering '{lowering}'"
  | .unknownCompiler transform compiler origin => s!"{origin}: transform '{transform}' names unknown compiler '{compiler}'"

namespace Registry

/-- The registry without entries. -/
def empty : Registry := {}

/-- The entry of a block type. -/
def block? (r : Registry) (name : String) : Option BlockEntry := r.blocks.get? name

/-- The declaration of a block type. -/
def decl? (r : Registry) (name : String) : Option BlockDecl := (r.block? name).map (·.decl)

/-- The transforms of a kind. -/
def transforms (r : Registry) : TransformKind → Dict TransformEntry
  | .adapter => r.adapters
  | .lens => r.lenses

/-- The entry of a transform. -/
def transform? (r : Registry) (kind : TransformKind) (id : String) : Option TransformEntry := (r.transforms kind).get? id

/-- The number of transforms. -/
def transformCount (r : Registry) : Nat := r.adapters.size + r.lenses.size

/-- Add a block type together with its lowering. -/
def addBlock (r : Registry) (d : BlockDecl) (lowering : Option Lowering) (origin : String) : Except RegistryError Registry :=
  match r.block? d.type with
  | some e => .error (.duplicateBlock d.type e.origin origin)
  | none => .ok { r with blocks := r.blocks.insert d.type ⟨d, lowering, origin⟩ }

/-- Add a transform together with what it does. -/
def addTransform (r : Registry) (d : TransformDecl) (transform : Option Transform) (origin : String) :
    Except RegistryError Registry :=
  match r.transform? d.kind d.id with
  | some e => .error (.duplicateTransform d.id e.origin origin)
  | none =>
    match d.kind with
    | .adapter => .ok { r with adapters := r.adapters.insert d.id ⟨d, transform, origin⟩ }
    | .lens => .ok { r with lenses := r.lenses.insert d.id ⟨d, transform, origin⟩ }

/-- The lowering that a declaration names. -/
def loweringOf (d : BlockDecl) (origin : String) : Except RegistryError (Option Lowering) :=
  match d.lowering with
  | none => .ok none
  | some name =>
    match LoweringKind.ofName? name with
    | some k => .ok (some (.kind k))
    | none => .error (.unknownLowering d.type name origin)

/-- The transform that a declaration names. -/
def transformOf (d : TransformDecl) (origin : String) : Except RegistryError (Option Transform) :=
  match d.compiler with
  | none => .ok none
  | some name =>
    match TransformRule.ofName? name with
    | some rule => .ok (some (.rule rule))
    | none => .error (.unknownCompiler d.id name origin)

/-- Declare a block type or a transform. -/
def declare (r : Registry) (origin : String) : Declaration → Except RegistryError Registry
  | .block d => do r.addBlock d (← loweringOf d origin) origin
  | .transform d => do r.addTransform d (← transformOf d origin) origin

/-- Declare one after the other up to the first that is refused; what came before stays. -/
def declareAll (origin : String) : Registry → List Declaration → Registry × Option RegistryError
  | r, [] => (r, none)
  | r, d :: rest =>
    match r.declare origin d with
    | .ok r => declareAll origin r rest
    | .error e => (r, some e)

end Registry

end PatchGraph
