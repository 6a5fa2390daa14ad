import PatchGraph.Diagnostic
import PatchGraph.Normalized

/-!
# The time of a patch

Exactly one block of a patch is the root of its time. Its parameters say how time passes.
-/

namespace PatchGraph

/-- The root of a patch's time and how time passes. -/
structure Time where
  root : BlockIx
  model : TimeModel
  deriving DecidableEq

namespace Time

/-- What is wrong with the parameters of a time root. -/
inductive RootProblem where
  | notPositive (param : String) (found : Value)
  | unknownMode (found : Value)

/-- The wording of a problem. -/
def RootProblem.message : RootProblem → String
  | .notPositive param v => s!"{param} must be a positive finite number, found {v.display}"
  | .unknownMode v => s!"mode must be \"loop\" or \"pingpong\", found {v.display}"

/-- A length of time in milliseconds: a positive parameter, or a default. -/
def length (params : Dict Value) (name : String) (default : Nat) : Except RootProblem Binary64 :=
  match params.get? name with
  | none => .ok (Binary64.ofInt default)
  | some v =>
    match v.number? with
    | some x => if x.isFinite ∧ Binary64.zero.lt x then .ok x else .error (.notPositive name v)
    | none => .error (.notPositive name v)

/-- What cyclic time does at the end of its period. -/
def cycleMode (params : Dict Value) : Except RootProblem CycleMode :=
  match params.get? "mode" with
  | none => .ok .loop
  | some v =>
    if v.text? = some "loop" then .ok .loop
    else if v.text? = some "pingpong" then .ok .pingpong
    else .error (.unknownMode v)

/-- How time passes under a root of a kind. -/
def modelOf (kind : TimeRootKind) (params : Dict Value) : Except RootProblem TimeModel :=
  match kind with
  | .finite => do return .finite (← length params "durationMs" 10000)
  | .cyclic => do return .cyclic (← length params "periodMs" 4000) (← cycleMode params)
  | .infinite => do return .infinite (← length params "windowMs" 10000)

/-- The time roots of a patch. -/
def roots (n : Normalized) (r : Registry) : List (BlockIx × Block × TimeRootKind) :=
  n.placedBlocks.filterMap fun (ix, b) => ((r.decl? b.type).bind (·.timeRoot)).map fun kind => (ix, b, kind)

/-- The time of a patch, or what is wrong with its roots. -/
def resolve (n : Normalized) (r : Registry) : Except Diagnostic Time :=
  match roots n r with
  | [] => .error ((Diagnostic.error .noTimeRoot .patch "patch has no time root block").withHint
      "add a FiniteTimeRoot, CycleTimeRoot, or InfiniteTimeRoot")
  | [(ix, b, kind)] =>
    match modelOf kind b.params with
    | .ok m => .ok ⟨ix, m⟩
    | .error e => .error (.error .badTimeRoot (.block b.id) s!"time root '{b.id}': {e.message}")
  | (ix, b, kind) :: rest =>
    let all := (ix, b, kind) :: rest
    let ids := String.intercalate ", " (all.map fun x => x.2.1.id)
    .error (((Diagnostic.error .severalTimeRoots (.block b.id) s!"patch has {all.length} time roots: {ids}").withRelated
      "also a time root" (rest.map fun x => .block x.2.1.id)).withHint "keep exactly one time root")

end Time

end PatchGraph
