import PatchGraph.Json.Decode

/-!
# Combine modes and policies

How several writers of one input, or several publishers of one bus, become one value.
-/

namespace PatchGraph

/-- How several writers become one value. -/
inductive CombineMode where
  | sum | average | max | min | last | layer | error
  deriving DecidableEq

namespace CombineMode

instance : Inhabited CombineMode := ⟨.last⟩

/-- The modes under their names. -/
def table : List (String × CombineMode) :=
  [("sum", .sum), ("average", .average), ("max", .max), ("min", .min), ("last", .last), ("layer", .layer), ("error", .error)]

/-- The name of a mode. -/
def name : CombineMode → String
  | .sum => "sum"
  | .average => "average"
  | .max => "max"
  | .min => "min"
  | .last => "last"
  | .layer => "layer"
  | .error => "error"

/-- The name of a mode in reports about the program itself. -/
def title : CombineMode → String
  | .sum => "Sum"
  | .average => "Average"
  | .max => "Max"
  | .min => "Min"
  | .last => "Last"
  | .layer => "Layer"
  | .error => "Error"

/-- Whether the result does not depend on the order of the writers. -/
def isCommutative : CombineMode → Bool
  | .sum | .average | .max | .min => true
  | .last | .layer | .error => false

/-- Decode a mode from its name. -/
def decode : Json.Source → Json.Decoded CombineMode := Json.Source.decodeChoice table

/-- Decode a mode from a text. -/
def ofText (text : String) : Json.Decoded CombineMode := (Json.Document.read text).decode decode

end CombineMode

/-- When writers are combined at all. -/
inductive CombineWhen where
  /-- Only when there are two or more. -/
  | multi
  /-- Whenever there is one. -/
  | always
  deriving DecidableEq, Inhabited

namespace CombineWhen

/-- The conditions under their names. -/
def table : List (String × CombineWhen) := [("multi", .multi), ("always", .always)]

/-- The name of a condition. -/
def name : CombineWhen → String
  | .multi => "multi"
  | .always => "always"

end CombineWhen

/-- How an input combines its writers. -/
structure CombinePolicy where
  when : CombineWhen := .multi
  mode : CombineMode := .last
  deriving DecidableEq, Inhabited

namespace CombinePolicy

/-- Combine by a mode when there are two or more writers. -/
def multi (mode : CombineMode) : CombinePolicy := ⟨.multi, mode⟩

/-- A policy in a data file. -/
def toJson (p : CombinePolicy) : Json := .obj [("when", .str p.when.name), ("mode", .str p.mode.name)]

/-- The fields of a policy. -/
def fields : List (Json.RecordField CombinePolicy) := [
  ⟨"when", false, fun _ s p => (s.decodeChoice CombineWhen.table).map fun w => { p with when := w }⟩,
  ⟨"mode", false, fun _ s p => (CombineMode.decode s).map fun m => { p with mode := m }⟩]

/-- Decode a policy. -/
def decode (depth : Nat) : Json.Source → Json.Decoded CombinePolicy :=
  Json.decodeRecord "CombinePolicy" fields {} depth

end CombinePolicy

end PatchGraph
