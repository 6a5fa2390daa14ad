/-!
# Stages of compilation

Which stages there are, what each makes and what it needs from others.
-/

namespace PatchGraph

/-- A stage of compilation. -/
inductive Stage where
  | normalize | typeGraph | timeTopology | depGraph | cycleCheck | lowerBlocks | lowerBuses | link
  deriving DecidableEq

/-- What a stage makes. -/
inductive Artifact where
  | normalized | consts | typed | time | graph | validated | busSlots | lowered | busValues | linked | cert
  deriving DecidableEq

/-- The name of what a stage makes. -/
def Artifact.title : Artifact → String
  | .normalized => "Normalized"
  | .consts => "Consts"
  | .typed => "Typed"
  | .time => "Time"
  | .graph => "Graph"
  | .validated => "Validated"
  | .busSlots => "BusSlots"
  | .lowered => "Lowered"
  | .busValues => "BusValues"
  | .linked => "Linked"
  | .cert => "Cert"

namespace Stage

/-- All stages in order. -/
def all : List Stage :=
  [.normalize, .typeGraph, .timeTopology, .depGraph, .cycleCheck, .lowerBlocks, .lowerBuses, .link]

/-- The name of a stage in messages. -/
def title : Stage → String
  | .normalize => "Normalize"
  | .typeGraph => "TypeGraph"
  | .timeTopology => "TimeTopology"
  | .depGraph => "DepGraph"
  | .cycleCheck => "CycleCheck"
  | .lowerBlocks => "LowerBlocks"
  | .lowerBuses => "LowerBuses"
  | .link => "Link"

/-- The name of a stage in logs. -/
def name : Stage → String
  | .normalize => "normalize"
  | .typeGraph => "type_graph"
  | .timeTopology => "time_topology"
  | .depGraph => "dep_graph"
  | .cycleCheck => "cycle_check"
  | .lowerBlocks => "lower_blocks"
  | .lowerBuses => "lower_buses"
  | .link => "link"

/-- The stage of a name in messages. -/
def ofTitle? (text : String) : Option Stage := all.find? fun s => s.title = text

/-- The stages that a stage needs. -/
def inputs : Stage → List Stage
  | .normalize => []
  | .typeGraph | .timeTopology | .depGraph => [.normalize]
  | .cycleCheck => [.depGraph]
  | .lowerBlocks => [.typeGraph, .timeTopology, .cycleCheck]
  | .lowerBuses => [.lowerBlocks]
  | .link => [.lowerBuses]

/-- What a stage makes. -/
def outputs : Stage → List Artifact
  | .normalize => [.normalized, .consts]
  | .typeGraph => [.typed]
  | .timeTopology => [.time]
  | .depGraph => [.graph]
  | .cycleCheck => [.validated]
  | .lowerBlocks => [.busSlots, .lowered]
  | .lowerBuses => [.busValues]
  | .link => [.linked, .cert]

/-- What makes the results of a stage stale. -/
def invalidatedBy : Stage → String
  | .normalize => "patch + block registry"
  | .typeGraph => "normalized + registries"
  | .timeTopology | .depGraph => "normalized + block registry"
  | .cycleCheck => "graph + block registry"
  | .lowerBlocks => "typed + time + validated + registries"
  | .lowerBuses => "lowered + typed + transform registry"
  | .link => "lowered + bus values + compile options"

/-- What holds after a stage without errors. -/
def invariants : Stage → String
  | .normalize => "ids unique, edges canonically ordered, defaults interned"
  | .typeGraph => "every port and bus typed, every edge has a conversion"
  | .timeTopology => "exactly one time root, model resolved"
  | .depGraph => "every enabled edge endpoint resolves to a node"
  | .cycleCheck => "SCCs partition the nodes, every cycle crosses a state boundary"
  | .lowerBlocks => "one combine node per multi-writer input, pure blocks allocate no state"
  | .lowerBuses => "every bus slot bound to a combine or default"
  | .link => "R1-R3 obligations verified"

/-- Whether an error of the stage stops a compilation at once: so it is as long as the patch is only checked. -/
def isFront : Stage → Bool
  | .normalize | .typeGraph | .timeTopology | .depGraph | .cycleCheck => true
  | .lowerBlocks | .lowerBuses | .link => false

/-- How many stages can stand before a stage in a chain of needs. -/
def rank : Stage → Nat
  | .normalize => 0
  | .typeGraph | .timeTopology | .depGraph => 1
  | .cycleCheck => 2
  | .lowerBlocks => 3
  | .lowerBuses => 4
  | .link => 5

/-- A stage needs only stages of lower rank. -/
theorem rank_lt_of_mem_inputs {s t : Stage} (h : t ∈ s.inputs) : t.rank < s.rank := by
  cases s <;> simp only [inputs, List.mem_cons, List.not_mem_nil, or_false] at h
  all_goals first
    | (subst h; decide)
    | (rcases h with rfl | rfl | rfl <;> decide)

/-- The stages to run for a stage, itself included: each after those it needs, and each once. -/
def required (s : Stage) : List Stage := (s.inputs.attach.flatMap (fun t => t.1.required) ++ [s]).eraseDups
  termination_by s.rank
  decreasing_by exact rank_lt_of_mem_inputs t.2

end Stage

end PatchGraph
