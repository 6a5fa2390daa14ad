import PatchGraph.Program.Builder

/-!
# Transforms

A transform is one step of an edge: it takes a value of a program to another one, adding what it needs to the program. It fails
when it cannot be expressed for that value; what it added before stays.
-/

namespace PatchGraph

/-- A step of building that may fail; what it built before stays. -/
abbrev Attempt := OptionT Build

/-- The transforms that are known by name. -/
inductive TransformRule where
  /-- A constant as a signal. -/
  | toSignal
  /-- A constant or a signal as a field that is the same everywhere. -/
  | toField
  /-- A phase as a plain number. -/
  | phaseToFloat
  /-- An operation with a parameter as its second operand. -/
  | zip (op : Op) (param : String) (default : Binary64)
  /-- An operation with one operand. -/
  | map (op : Op)
  deriving DecidableEq

/-- What a transform does: a rule that is known by name, or something else. -/
inductive Transform where
  | rule (r : TransformRule)
  | custom (run : ValueRef → Dict Value → Attempt ValueRef)

namespace TransformRule

/-- The rules under their names. -/
def table : List (String × TransformRule) :=
  [("constToSignal", .toSignal), ("broadcast", .toField), ("phaseToFloat", .phaseToFloat),
    ("scale", .zip .mul "factor" .one), ("offset", .zip .add "amount" .zero),
    ("clamp01", .map .clamp01), ("invert", .map .invert)]

/-- The rule of a name. -/
def ofName? (name : String) : Option TransformRule := table.lookup name

/-- The type of a value. -/
def typeOf (v : ValueRef) : Attempt ValueType := OptionT.mk do
  return (← get).typeOf? v

/-- The type of a value that arithmetic applies to. -/
def numericTypeOf (v : ValueRef) : Attempt ValueType := do
  let t ← typeOf v
  if t.domain.isNumeric then return t else failure

/-- The number a constant is. -/
def constantNumber (c : ConstId) : Attempt Binary64 := OptionT.mk do
  return ((← get).constant? c).bind Value.number?

/-- Apply an operation to a value and a number. A constant is folded. -/
def applyZip (op : Op) (operand : Binary64) (v : ValueRef) : Attempt ValueRef := do
  let t ← numericTypeOf v
  match v with
  | .const id _ =>
    let x ← constantNumber id
    Build.constant (.float (op.fold x operand)) t
  | .signal e _ =>
    let k ← Build.intern (.float operand)
    let b ← Build.signal (.const k)
    Build.signalValue (← Build.signal (.zip op e b)) t
  | .field e _ =>
    let k ← Build.intern (.float operand)
    let b ← Build.field (.const k)
    Build.fieldValue (← Build.field (.zip op e b)) t
  | .event _ _ | .special _ => failure

/-- Apply an operation with one operand to a value. A constant is folded. -/
def applyMap (op : Op) (v : ValueRef) : Attempt ValueRef := do
  let t ← numericTypeOf v
  match v with
  | .const id _ =>
    let x ← constantNumber id
    Build.constant (.float (op.fold x .zero)) t
  | .signal e _ => Build.signalValue (← Build.signal (.map op e)) t
  | .field e _ => Build.fieldValue (← Build.field (.map op e)) t
  | .event _ _ | .special _ => failure

/-- Take a phase for a plain number: the value stays, its type changes. -/
def applyPhaseToFloat (v : ValueRef) : Attempt ValueRef := do
  let t ← typeOf v
  if t.domain = .phase then
    let u := t.withDomain .float
    match v with
    | .const id _ => return .const id u
    | .signal e _ => Build.signalValue e u
    | .field e _ => Build.fieldValue e u
    | .event _ _ | .special _ => failure
  else failure

/-- Apply a rule to a value. -/
def run (r : TransformRule) (v : ValueRef) (params : Dict Value) : Attempt ValueRef :=
  match r with
  | .toSignal => do
    let t ← typeOf v
    OptionT.mk (Build.coerce v (t.withWorld .signal))
  | .toField => do
    let t ← typeOf v
    OptionT.mk (Build.coerce v (t.withWorld .field))
  | .phaseToFloat => applyPhaseToFloat v
  | .zip op param default =>
    match params.get? param with
    | none => applyZip op default v
    | some value =>
      match value.number? with
      | none => failure
      | some operand => applyZip op operand v
  | .map op => applyMap op v

end TransformRule

/-- Apply a transform to a value. -/
def Transform.run (t : Transform) (v : ValueRef) (params : Dict Value) : Attempt ValueRef :=
  match t with
  | .rule r => r.run v params
  | .custom run => run v params

end PatchGraph
