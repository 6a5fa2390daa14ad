import PatchGraph.Registry.Basic

/-!
# The steps of an edge

A value that passes an edge goes through its adapters, then through its lenses.
-/

namespace PatchGraph

/-- A step that could not be taken. -/
structure ChainError where
  kind : TransformKind
  id : String
  deriving DecidableEq

/-- The wording of an error. -/
def ChainError.message (e : ChainError) : String :=
  let kind := match e.kind with
    | .adapter => "adapter"
    | .lens => "lens"
  s!"{kind} '{e.id}' has no IR compilation"

namespace Registry

/-- Apply one step to a value; none if the step is unknown, has no rule or does not apply. -/
def applyStep (r : Registry) (kind : TransformKind) (s : Step) (v : ValueRef) : Build (Option ValueRef) :=
  match (r.transform? kind s.id).bind (·.transform) with
  | none => return none
  | some t => (t.run v s.params).run

/-- Apply steps of one kind in order, up to the first that fails. -/
def applySteps (r : Registry) (kind : TransformKind) : List Step → ValueRef → ExceptT ChainError Build ValueRef
  | [], v => return v
  | s :: rest, v => do
    match ← r.applyStep kind s v with
    | none => throw ⟨kind, s.id⟩
    | some w => r.applySteps kind rest w

/-- Take a value through the steps of an edge. -/
def applyChain (r : Registry) (e : Edge) (v : ValueRef) : ExceptT ChainError Build ValueRef := do
  let w ← r.applySteps .adapter e.adapters v
  r.applySteps .lens e.lenses w

end Registry

end PatchGraph
