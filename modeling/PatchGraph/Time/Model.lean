import PatchGraph.Json.Basic

/-!
# Time models

How time passes in a patch: once through, round and round, or without end.
-/

namespace PatchGraph

/-- What a cyclic time does at the end of its period. -/
inductive CycleMode where
  | loop | pingpong
  deriving DecidableEq

/-- The name of a cycle mode. -/
def CycleMode.name : CycleMode → String
  | .loop => "loop"
  | .pingpong => "pingpong"

/-- How time passes, with its length in milliseconds. -/
inductive TimeModel where
  | finite (duration : Binary64)
  | cyclic (period : Binary64) (mode : CycleMode)
  | infinite (window : Binary64)
  deriving DecidableEq

namespace TimeModel

/-- Whether time repeats: only then there is a phase, and an occurrence when it wraps. -/
def isCyclic : TimeModel → Bool
  | .cyclic _ _ => true
  | .finite _ | .infinite _ => false

/-- A time model in a data file. -/
def toJson : TimeModel → Json
  | .finite d => .obj [("kind", .str "finite"), ("durationMs", .float d)]
  | .cyclic p mode => .obj [("kind", .str "cyclic"), ("periodMs", .float p), ("mode", .str mode.name)]
  | .infinite w => .obj [("kind", .str "infinite"), ("windowMs", .float w)]

end TimeModel

end PatchGraph
