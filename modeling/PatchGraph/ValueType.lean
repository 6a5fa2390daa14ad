import PatchGraph.TypeText.Grammar
import PatchGraph.Combine
import PatchGraph.Value

/-!
# Types of values

A type says when a value is evaluated (its world), what it is (its domain), and carries optional remarks on its unit and meaning. The
rest follows from world and domain: how many lanes it has, whether a bus can carry it, how it is represented in a program, which
types it converts to and which ways of combining writers it allows.
-/

namespace PatchGraph

/-- When a value is evaluated. -/
inductive World where
  /-- Continuously, once a frame. -/
  | signal
  /-- Lazily, once an element of a domain. -/
  | field
  /-- At discrete occurrences. -/
  | event
  /-- When the patch is compiled. -/
  | scalar
  /-- Never: it configures the editor. -/
  | config
  deriving DecidableEq

namespace World

/-- The worlds under their names in data files. -/
def table : List (String × World) :=
  [("signal", .signal), ("field", .field), ("event", .event), ("scalar", .scalar), ("config", .config)]

/-- The name of a world in data files. -/
def name : World → String
  | .signal => "signal"
  | .field => "field"
  | .event => "event"
  | .scalar => "scalar"
  | .config => "config"

/-- The name of a world in type texts. -/
def title : World → String
  | .signal => "Signal"
  | .field => "Field"
  | .event => "Event"
  | .scalar => "Scalar"
  | .config => "Config"

/-- The world of a name in a type text, in upper or lower case. -/
def ofTitle? (text : String) : Option World := table.lookup (String.ofList (text.toList.map Char.toLower))

end World

/-- What a value is. -/
inductive Domain where
  | float | int | boolean | vec2 | vec3 | color | phase | time | trigger | text
  | elementDomain | renderTree | renderNode | sceneTargets | camera
  deriving DecidableEq

namespace Domain

/-- The domains under their names. -/
def table : List (String × Domain) :=
  [("float", .float), ("int", .int), ("boolean", .boolean), ("vec2", .vec2), ("vec3", .vec3), ("color", .color),
    ("phase", .phase), ("time", .time), ("trigger", .trigger), ("string", .text), ("elementDomain", .elementDomain),
    ("renderTree", .renderTree), ("renderNode", .renderNode), ("sceneTargets", .sceneTargets), ("camera", .camera)]

/-- Other names that type texts may use. -/
def aliases : List (String × Domain) :=
  [("number", .float), ("bool", .boolean), ("point", .vec2), ("unit", .phase), ("text", .text), ("domain", .elementDomain)]

/-- The name of a domain. -/
def name : Domain → String
  | .float => "float"
  | .int => "int"
  | .boolean => "boolean"
  | .vec2 => "vec2"
  | .vec3 => "vec3"
  | .color => "color"
  | .phase => "phase"
  | .time => "time"
  | .trigger => "trigger"
  | .text => "string"
  | .elementDomain => "elementDomain"
  | .renderTree => "renderTree"
  | .renderNode => "renderNode"
  | .sceneTargets => "sceneTargets"
  | .camera => "camera"

/-- The domain of a name in a type text. -/
def ofName? (text : String) : Option Domain := (table ++ aliases).lookup text

/-- The domains that arithmetic applies to. -/
def isNumeric : Domain → Bool
  | .float | .int | .vec2 | .vec3 | .phase | .time => true
  | _ => false

/-- The domains whose fields a bus can carry. -/
def isScalarShaped : Domain → Bool
  | .float | .int | .boolean | .color => true
  | _ => false

/-- How many numbers a value of the domain takes. -/
def lanes : Domain → Option Nat
  | .float | .int | .boolean | .phase | .time | .trigger => some 1
  | .vec2 | .sceneTargets => some 2
  | .vec3 => some 3
  | .color => some 4
  | .text | .elementDomain | .renderTree | .renderNode | .camera => none

/-- The value of the domain that stands for nothing. -/
def zero? : Domain → Option Value
  | .float | .phase | .time => some (.float .zero)
  | .int => some (.int 0)
  | .boolean | .trigger => some (.bool false)
  | .vec2 | .sceneTargets => some (.vector (List.replicate 2 .zero))
  | .vec3 => some (.vector (List.replicate 3 .zero))
  | .color => some (.vector (List.replicate 4 .zero))
  | .text => some (.text "")
  | .elementDomain | .renderTree | .renderNode | .camera => none

end Domain

/-- Whether a type belongs to the language of patches or is internal to a block library. -/
inductive Category where
  | core | internal
  deriving DecidableEq

/-- The name of a category. -/
def Category.name : Category → String
  | .core => "core"
  | .internal => "internal"

/-- The type of a value. -/
structure ValueType where
  world : World
  domain : Domain
  category : Category := .core
  semantics : Option String := none
  unit : Option String := none
  deriving DecidableEq

/-- How a value is represented in a program. -/
inductive Representation where
  | const | signal | field | event
  /-- An opaque handle. -/
  | handle
  /-- None: the value exists outside programs. -/
  | none
  deriving DecidableEq

/-- The name of a representation. -/
def Representation.title : Representation → String
  | .const => "Const"
  | .signal => "Signal"
  | .field => "Field"
  | .event => "Event"
  | .handle => "Handle"
  | .none => "None"

/-- How a value of one type becomes one of another. -/
inductive Conversion where
  | identity | promote | broadcast
  deriving DecidableEq

/-- The name of a conversion. -/
def Conversion.name : Conversion → String
  | .identity => "identity"
  | .promote => "promote"
  | .broadcast => "broadcast"

namespace ValueType

/-- How many numbers a value of the type takes. -/
def lanes (t : ValueType) : Option Nat := t.domain.lanes

/-- Whether a bus can carry the type: signals and events always, fields of scalar-shaped domains. -/
def isBusEligible (t : ValueType) : Bool :=
  match t.world with
  | .signal | .event => true
  | .field => t.domain.isScalarShaped
  | .scalar | .config => false

/-- The same type in another world. -/
def withWorld (t : ValueType) (world : World) : ValueType := { t with world }

/-- The same type of another domain; the remark on its meaning no longer applies. -/
def withDomain (t : ValueType) (domain : Domain) : ValueType := { t with domain, semantics := none }

/-- Whether two types agree up to category and remarks. -/
def sameShape (t u : ValueType) : Bool := t.world = u.world && t.domain = u.domain

/-- How values of the type are represented in a program. -/
def representation (t : ValueType) : Representation :=
  match t.domain with
  | .renderTree | .renderNode => .none
  | .elementDomain | .camera => .handle
  | _ =>
    match t.world with
    | .config => .none
    | .scalar => .const
    | .signal => .signal
    | .field => .field
    | .event => .event

/-- Whether values of the type live in slots: signals, fields and events. -/
def isSlotted (t : ValueType) : Bool :=
  match t.representation with
  | .signal | .field | .event => true
  | .const | .handle | .none => false

/-- The text of a type. -/
def display (t : ValueType) : String :=
  let note (key : String) : Option String → String
    | none => ""
    | some value => s!" @{key}({value})"
  (if t.category = .internal then "internal " else "") ++ t.world.title ++ "<" ++ t.domain.name ++ ">"
    ++ note "unit" t.unit ++ note "semantics" t.semantics

/-- A type in a data file. -/
def toJson (t : ValueType) : Json :=
  .obj ([("world", .str t.world.name), ("domain", .str t.domain.name), ("category", .str t.category.name),
    ("busEligible", .bool t.isBusEligible)] ++ Json.member? "lanes" Json.nat t.lanes
    ++ Json.member? "semantics" Json.str t.semantics ++ Json.member? "unit" Json.str t.unit)

/-! ## Reading types -/

/-- Why a text is no type. -/
inductive Error where
  | malformed (errors : List TypeText.Error)
  | unknownWorld (name : String)
  | unknownDomain (name : String)
  | unknownRemark (key : String)
  deriving DecidableEq

/-- The wording of an error in a text. -/
def Error.message (text : String) : Error → String
  | .malformed errors => s!"malformed type '{text}': " ++ String.intercalate "; " (errors.map TypeText.Error.message)
  | .unknownWorld name => s!"unknown world '{name}' in type '{text}'"
  | .unknownDomain name => s!"unknown domain '{name}' in type '{text}'"
  | .unknownRemark key => s!"unknown annotation '@{key}' in type '{text}'"

/-- Apply annotations in order; of two with the same key the later one stays. -/
def annotate : ValueType → List (String × String) → Except Error ValueType
  | t, [] => .ok t
  | t, (key, value) :: rest =>
    if key = "unit" then annotate { t with unit := some value } rest
    else if key = "semantics" then annotate { t with semantics := some value } rest
    else .error (.unknownRemark key)

/-- The type of the parts of a type text. -/
def ofRaw (raw : TypeText.Raw) : Except Error ValueType :=
  match World.ofTitle? raw.world with
  | none => .error (.unknownWorld raw.world)
  | some world =>
    match Domain.ofName? raw.domain with
    | none => .error (.unknownDomain raw.domain)
    | some domain =>
      annotate { world, domain, category := if raw.internal then .internal else .core } raw.annotations

/-- The type a text stands for. -/
def parse (text : String) : Except Error ValueType :=
  match TypeText.parse text with
  | .error errors => .error (.malformed errors)
  | .ok raw => ofRaw raw

/-- The type a text stands for, if it is one. -/
def parse? (text : String) : Option ValueType := (parse text).toOption

end ValueType

/-! ## Rules between types -/

/-- Whether a value of one domain can stand for one of another. -/
def Domain.isCompatible (source target : Domain) : Bool :=
  source = target || match source, target with
    | .renderTree, .renderNode | .renderNode, .renderTree | .sceneTargets, .vec2 => true
    | _, _ => false

/-- How a value of one type may feed a port of another. -/
def ValueType.conversion? (source target : ValueType) : Option Conversion :=
  if !source.domain.isCompatible target.domain then none
  else if source.world = target.world then some .identity
  else match source.world, target.world with
    | .scalar, .signal => some .promote
    | .signal, .field | .scalar, .field => some .broadcast
    | _, _ => none

/-- Whether writers of a type may be combined by a mode. Mode `error` is about the number of writers, so every type allows it. -/
def ValueType.allows (t : ValueType) (mode : CombineMode) : Bool :=
  mode = .error || match t.world with
    | .scalar | .config => mode = .last
    | .event => mode = .last || mode = .sum
    | .signal | .field =>
      t.domain.isNumeric || (if t.domain = .color then mode = .last || mode = .layer else mode = .last)

/-- The type that a bus of a reserved name must have. -/
def reservedBusType? (name : String) : Option ValueType :=
  if name = "phaseA" then some { world := .signal, domain := .phase }
  else if name = "pulse" then some { world := .event, domain := .trigger }
  else none

/-- How a step of an edge changes the type of what passes it. -/
structure TypeEffect where
  world : Option World := none
  domain : Option Domain := none
  deriving DecidableEq, Inhabited

namespace TypeEffect

/-- The type after a step: its world changes first, then its domain. -/
def apply (e : TypeEffect) (t : ValueType) : ValueType :=
  let t := match e.world with
    | none => t
    | some w => t.withWorld w
  match e.domain with
  | none => t
  | some d => t.withDomain d

/-- An effect in a data file. -/
def toJson (e : TypeEffect) : Json :=
  .obj (Json.member? "world" (fun w => .str w.name) e.world ++ Json.member? "domain" (fun d => .str d.name) e.domain)

/-- The fields of an effect. -/
def fields : List (Json.RecordField TypeEffect) := [
  ⟨"world", false, fun _ s e => (s.decodeOption (Json.Source.decodeChoice World.table)).map fun w => { e with world := w }⟩,
  ⟨"domain", false, fun _ s e => (s.decodeOption (Json.Source.decodeChoice Domain.table)).map fun d => { e with domain := d }⟩]

/-- Decode an effect. -/
def decode (depth : Nat) : Json.Source → Json.Decoded TypeEffect := Json.decodeRecord "TypeEffect" fields {} depth

end TypeEffect

end PatchGraph
