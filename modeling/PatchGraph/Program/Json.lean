import PatchGraph.Program.Basic

/-!
# Programs in data files
-/

namespace PatchGraph

/-- A record with a tag in front. -/
def tagged (key tag : String) (members : List (String × Json)) : Json := .obj ((key, .str tag) :: members)

/-- A signal expression in a data file. -/
def SignalExpr.toJson : SignalExpr → Json
  | .const v => tagged "op" "const" [("value", .nat v.index)]
  | .absoluteTime => tagged "op" "timeAbsMs" []
  | .modelTime => tagged "op" "timeModelMs" []
  | .phase => tagged "op" "phase01" []
  | .read s => tagged "op" "slotRead" [("slot", .nat s.index)]
  | .map op e => tagged "op" "map" [("func", .str op.name), ("src", .nat e.index)]
  | .zip op a b => tagged "op" "zip" [("func", .str op.name), ("a", .nat a.index), ("b", .nat b.index)]
  | .delay s e => tagged "op" "delay" [("state", .nat s.index), ("input", .nat e.index)]
  | .integrate s e => tagged "op" "integrate" [("state", .nat s.index), ("input", .nat e.index)]
  | .sampleHold s e t => tagged "op" "sampleHold"
    [("state", .nat s.index), ("input", .nat e.index), ("trigger", Json.optional (fun t => .nat t.index) t)]
  | .combine mode terms => tagged "op" "combine"
    [("mode", .str mode.name), ("terms", .arr (terms.map fun t => .nat t.index))]

/-- A field expression in a data file. -/
def FieldExpr.toJson : FieldExpr → Json
  | .const v => tagged "op" "const" [("value", .nat v.index)]
  | .broadcast e => tagged "op" "broadcast" [("src", .nat e.index)]
  | .read s => tagged "op" "slotRead" [("slot", .nat s.index)]
  | .map op e => tagged "op" "map" [("func", .str op.name), ("src", .nat e.index)]
  | .zip op a b => tagged "op" "zip" [("func", .str op.name), ("a", .nat a.index), ("b", .nat b.index)]
  | .combine mode terms => tagged "op" "combine"
    [("mode", .str mode.name), ("terms", .arr (terms.map fun t => .nat t.index))]

/-- An event expression in a data file. -/
def EventExpr.toJson : EventExpr → Json
  | .never => tagged "op" "never" []
  | .wrap => tagged "op" "wrap" []
  | .read s => tagged "op" "slotRead" [("slot", .nat s.index)]
  | .merge terms => tagged "op" "merge" [("terms", .arr (terms.map fun t => .nat t.index))]
  | .override terms => tagged "op" "override" [("terms", .arr (terms.map fun t => .nat t.index))]

/-- A handle in a data file. -/
def HandleRef.toJson : HandleRef → Json
  | .domain h => tagged "kind" "domain" [("handle", .nat h.index)]
  | .renderSink h => tagged "kind" "renderSink" [("handle", .nat h.index)]
  | .camera h => tagged "kind" "camera" [("handle", .nat h.index)]

/-- A value in a data file. -/
def ValueRef.toJson : ValueRef → Json
  | .const id type => tagged "kind" "const" [("id", .nat id.index), ("ty", type.toJson)]
  | .signal e s => tagged "kind" "sig" [("expr", .nat e.index), ("slot", .nat s.index)]
  | .field e s => tagged "kind" "field" [("expr", .nat e.index), ("slot", .nat s.index)]
  | .event e s => tagged "kind" "event" [("expr", .nat e.index), ("slot", .nat s.index)]
  | .special h => tagged "kind" "special" [("special", h.toJson)]

/-- The source of a slot in a data file. -/
def SlotSource.toJson : SlotSource → Json
  | .unbound => tagged "kind" "unbound" []
  | .signal e => tagged "kind" "sig" [("expr", .nat e.index)]
  | .field e => tagged "kind" "field" [("expr", .nat e.index)]
  | .event e => tagged "kind" "event" [("expr", .nat e.index)]

/-- A slot and its place in a data file. -/
def Slot.toJson (place : Nat) (s : Slot) : Json :=
  .obj [("id", .nat place), ("ty", s.type.toJson), ("source", s.source.toJson)]

/-- A state cell and its place in a data file. -/
def StateCell.toJson (place : Nat) (s : StateCell) : Json :=
  .obj [("id", .nat place), ("owner", .nat s.owner.index), ("init", .nat s.init.index)]

/-- The members of a handle's kind. -/
def HandleKind.members : HandleKind → List (String × Json)
  | .elementDomain count => [("kind", .str "elementDomain"), ("count", .nat count)]
  | .renderSink => [("kind", .str "renderSink")]
  | .camera => [("kind", .str "camera")]

/-- A handle and its place in a data file. -/
def Handle.toJson (place : Nat) (h : Handle) : Json :=
  .obj ([("id", .nat place), ("owner", .nat h.owner.index)] ++ h.kind.members)

/-- A table of values in a data file. -/
def valuesJson (d : Dict ValueRef) : Json := .obj (d.entries.map fun (name, v) => (name, v.toJson))

/-- A sink in a data file. -/
def Sink.toJson (s : Sink) : Json :=
  .obj [("handle", .nat s.handle.index), ("block", .nat s.block.index), ("inputs", valuesJson s.inputs)]

/-- A step of the schedule in a data file. -/
def ScheduleStep.toJson : ScheduleStep → Json
  | .block b => tagged "step" "blockEval" [("block", .nat b.index)]
  | .bus b => tagged "step" "busCombine" [("bus", .nat b.index)]

/-- The entries of a table with their places. -/
def placed {α : Type} (f : Nat → α → Json) (as : List α) : Json := .arr (as.zipIdx.map fun (a, i) => f i a)

/-- A program in a data file. -/
def Program.toJson (p : Program) : Json :=
  .obj [("timeModel", Json.optional TimeModel.toJson p.timeModel),
    ("consts", .arr (p.consts.map Value.toJson)),
    ("signals", .arr (p.signals.map SignalExpr.toJson)),
    ("fields", .arr (p.fields.map FieldExpr.toJson)),
    ("events", .arr (p.events.map EventExpr.toJson)),
    ("slots", placed Slot.toJson p.slots),
    ("states", placed StateCell.toJson p.states),
    ("handles", placed Handle.toJson p.handles),
    ("renderSinks", .arr (p.renderSinks.map Sink.toJson)),
    ("cameras", .arr (p.cameras.map Sink.toJson)),
    ("schedule", .arr (p.schedule.map ScheduleStep.toJson))]

end PatchGraph
