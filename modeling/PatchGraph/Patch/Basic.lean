import PatchGraph.Dict
import PatchGraph.Combine
import PatchGraph.Value

/-!
# Patches

A patch is what an editor draws: blocks, edges between their ports, and buses that blocks publish to and listen from. Nothing is
checked here, so ids may repeat and edges may lead nowhere.
-/

namespace PatchGraph

/-- A block: an instance of a block type, with its parameters and its own defaults for inputs that are not connected. -/
structure Block where
  id : String
  type : String
  params : Dict Value := {}
  defaults : Dict Value := {}
  deriving DecidableEq, Inhabited

/-- A bus: a named channel of a type, with how its publishers are combined and what it holds when there are none. -/
structure Bus where
  id : String
  type : String
  combine : CombineMode := .last
  default : Option Value := none
  deriving DecidableEq, Inhabited

/-- One end of an edge. -/
inductive Endpoint where
  | port (block name : String)
  | bus (id : String)
  deriving DecidableEq, Inhabited

/-- An end of an edge as messages name it. -/
def Endpoint.display : Endpoint → String
  | .port block name => s!"{block}.{name}"
  | .bus id => s!"bus:{id}"

/-- A step that an edge takes its value through: a transform and its parameters. -/
structure Step where
  id : String
  params : Dict Value := {}
  deriving DecidableEq, Inhabited

/-- An edge. Its adapters change the type of what it carries and are applied first; its lenses only shape the value. -/
structure Edge where
  id : String
  source : Endpoint
  target : Endpoint
  enabled : Bool := true
  sortKey : Option Int := none
  adapters : List Step := []
  lenses : List Step := []
  deriving DecidableEq, Inhabited

/-- Whether an edge joins two buses. -/
def Edge.joinsBuses (e : Edge) : Bool :=
  match e.source, e.target with
  | .bus _, .bus _ => true
  | _, _ => false

/-- Settings of a whole patch. -/
structure Settings where
  seed : Nat := 0
  speed : Binary64 := .one
  deriving DecidableEq, Inhabited

/-- A patch. -/
structure Patch where
  blocks : List Block := []
  edges : List Edge := []
  buses : List Bus := []
  settings : Settings := {}
  deriving DecidableEq, Inhabited

end PatchGraph
