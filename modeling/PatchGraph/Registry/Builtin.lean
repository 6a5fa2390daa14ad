import PatchGraph.Registry.Basic

/-!
# The built-in registry

The block types and transforms that are there without any manifest.
-/

namespace PatchGraph.Registry

/-- Where the built-in declarations come from, as messages name it. -/
def builtinOrigin : String := "<builtin>"

/-- The type of most ports. -/
def floatSignal : String := "Signal<float>"

/-- An input that holds a number when nothing is connected. -/
def numberInput (id : String) (default : Binary64) (combine : Option CombinePolicy := none) : InputDecl :=
  ⟨id, floatSignal, some (.float default), combine, false⟩

/-- An input that may stay without a writer. -/
def optionalInput (id type : String) (combine : Option CombinePolicy := none) : InputDecl := ⟨id, type, none, combine, true⟩

/-- A root of time; cyclic time also has a phase and an event when it wraps. -/
def timeRootDecl (type : String) (kind : TimeRootKind) : BlockDecl where
  type := type
  outputs := ⟨"time", "Signal<time> @unit(ms)"⟩ ::
    (if kind = .cyclic then [⟨"phase", "Signal<phase>"⟩, ⟨"wrap", "Event<trigger>"⟩] else [])
  timeRoot := some kind
  lowering := some "timeRoot"

/-- A constant. -/
def constDecl (type output : String) : BlockDecl where
  type := type
  outputs := [⟨"out", output⟩]
  lowering := some "const"

/-- An operation with two operands. -/
def binaryDecl (type lowering : String) (second : Binary64) (combine : CombineMode) : BlockDecl where
  type := type
  inputs := [numberInput "a" .zero (some (.multi combine)), numberInput "b" second (some (.multi combine))]
  outputs := [⟨"out", floatSignal⟩]
  lowering := some lowering

/-- An operation with one operand. -/
def unaryDecl (type lowering : String) : BlockDecl where
  type := type
  inputs := [numberInput "in" .zero]
  outputs := [⟨"out", floatSignal⟩]
  lowering := some lowering

/-- A block with a state, and perhaps more inputs. -/
def statefulDecl (type lowering : String) (more : List InputDecl := []) : BlockDecl where
  type := type
  inputs := numberInput "in" .zero :: more
  outputs := [⟨"out", floatSignal⟩]
  stateBoundary := true
  lowering := some lowering

/-- A whole number as a double. -/
def whole (n : Nat) : Binary64 := Binary64.ofInt n

/-- The built-in block types. -/
def builtinBlocks : List BlockDecl := [
  timeRootDecl "FiniteTimeRoot" .finite,
  timeRootDecl "CycleTimeRoot" .cyclic,
  timeRootDecl "InfiniteTimeRoot" .infinite,
  constDecl "Const" floatSignal,
  constDecl "ConstVec2" "Signal<vec2>",
  binaryDecl "Add" "add" .zero .sum,
  binaryDecl "Sub" "sub" .zero .last,
  binaryDecl "Mul" "mul" .one .last,
  binaryDecl "Div" "div" .one .last,
  binaryDecl "Min" "min" .zero .min,
  binaryDecl "Max" "max" .zero .max,
  unaryDecl "Sin" "sin",
  unaryDecl "Cos" "cos",
  unaryDecl "Abs" "abs",
  unaryDecl "Neg" "neg",
  unaryDecl "Fract" "fract",
  statefulDecl "Delay" "delay",
  statefulDecl "Integrate" "integrate",
  statefulDecl "SampleHold" "sampleHold" [optionalInput "trigger" "Event<trigger>" (some (.multi .sum))],
  { type := "GridDomain", outputs := [⟨"domain", "Scalar<elementDomain>"⟩], lowering := some "domain" },
  { type := "Broadcast", inputs := [numberInput "in" .zero], outputs := [⟨"out", "Field<float>"⟩],
    lowering := some "broadcast" },
  { type := "RenderInstances",
    inputs := [optionalInput "domain" "Scalar<elementDomain>", optionalInput "position" "Field<vec2>",
      ⟨"color", "Field<color>", some (.vector (List.replicate 4 .one)), some (.multi .layer), false⟩,
      ⟨"size", "Field<float>", some (.float (whole 4)), none, false⟩],
    outputs := [⟨"tree", "Signal<renderTree>"⟩], lowering := some "renderSink" },
  { type := "Camera3D",
    inputs := [⟨"position", "Signal<vec3>", some (.vector [.zero, .zero, whole 5]), none, false⟩,
      numberInput "fov" (whole 60)],
    outputs := [⟨"camera", "Scalar<camera>"⟩], lowering := some "camera" },
  { type := "Probe", inputs := [optionalInput "in" floatSignal] }]

/-- The built-in transforms. -/
def builtinTransforms : List TransformDecl := [
  ⟨"constToSignal", .adapter, { world := some .signal }, some "constToSignal"⟩,
  ⟨"broadcast", .adapter, { world := some .field }, some "broadcast"⟩,
  ⟨"phaseToFloat", .adapter, { domain := some .float }, some "phaseToFloat"⟩,
  ⟨"legacyColorRamp", .adapter, { domain := some .color }, none⟩,
  ⟨"scale", .lens, {}, some "scale"⟩,
  ⟨"offset", .lens, {}, some "offset"⟩,
  ⟨"clamp01", .lens, {}, some "clamp01"⟩,
  ⟨"invert", .lens, {}, some "invert"⟩,
  ⟨"legacyEase", .lens, {}, none⟩]

/-- The built-in registry. -/
def builtin : Registry :=
  (declareAll builtinOrigin empty (builtinBlocks.map .block ++ builtinTransforms.map .transform)).1

end PatchGraph.Registry
