import PatchGraph.Json.Basic

/-!
# Diagnostics

What a compilation has to say about a patch. A patch has no text, so a diagnostic names the block, port, edge or bus it is about.
-/

namespace PatchGraph

/-- What a diagnostic is about. Each has a number that never changes its meaning. -/
inductive DiagCode where
  /-- A type text cannot be read. -/
  | unreadableType
  /-- A bus cannot carry its type. -/
  | busIneligible
  /-- A bus of a reserved name has another type. -/
  | reservedBus
  /-- An edge joins types without a conversion. -/
  | noConversion
  | unknownBlockType
  | unknownTransform
  | noTimeRoot
  | severalTimeRoots
  | badTimeRoot
  /-- An edge names a block or a port that is not there. -/
  | danglingPort
  /-- An edge names a bus that is not there, or joins two buses. -/
  | danglingBus
  /-- A cycle runs through no state boundary. -/
  | illegalCycle
  | missingInput
  /-- An output has no slot although it needs one. -/
  | missingOutput
  | unsupportedAdapter
  | unsupportedLens
  | busFailed
  /-- A block has state although it is no state boundary. -/
  | stateInPureBlock
  | combineNotAllowed
  | severalWriters
  | blockFailed
  /-- A bus has no publishers. -/
  | silentBus
  /-- The program does not pass its own verification. -/
  | unverified
  deriving DecidableEq

namespace DiagCode

/-- All codes. -/
def all : List DiagCode :=
  [.unreadableType, .busIneligible, .reservedBus, .noConversion, .unknownBlockType, .unknownTransform,
    .noTimeRoot, .severalTimeRoots, .badTimeRoot, .danglingPort, .danglingBus, .illegalCycle,
    .missingInput, .missingOutput, .unsupportedAdapter, .unsupportedLens, .busFailed, .stateInPureBlock,
    .combineNotAllowed, .severalWriters, .blockFailed, .silentBus, .unverified]

/-- The number of a code. -/
def number : DiagCode → String
  | .unreadableType => "E0100"
  | .busIneligible => "E0101"
  | .reservedBus => "E0102"
  | .noConversion => "E0103"
  | .unknownBlockType => "E0104"
  | .unknownTransform => "E0105"
  | .noTimeRoot => "E0200"
  | .severalTimeRoots => "E0201"
  | .badTimeRoot => "E0202"
  | .danglingPort => "E0300"
  | .danglingBus => "E0301"
  | .illegalCycle => "E0400"
  | .missingInput => "E0500"
  | .missingOutput => "E0501"
  | .unsupportedAdapter => "E0502"
  | .unsupportedLens => "E0503"
  | .busFailed => "E0504"
  | .stateInPureBlock => "E0505"
  | .combineNotAllowed => "E0506"
  | .severalWriters => "E0507"
  | .blockFailed => "E0508"
  | .silentBus => "W0500"
  | .unverified => "E0600"

end DiagCode

/-- How grave a diagnostic is: an error stops the compilation, a warning does not. -/
inductive Level where
  | error | warning
  deriving DecidableEq

/-- The name of a level. -/
def Level.name : Level → String
  | .error => "error"
  | .warning => "warning"

/-- The part of a patch that a diagnostic names. -/
inductive Locator where
  | patch
  | block (id : String)
  | port (owner name : String)
  | edge (id : String)
  | bus (id : String)
  deriving DecidableEq

namespace Locator

/-- A locator as messages show it. -/
def display : Locator → String
  | .patch => "patch"
  | .block id => s!"block '{id}'"
  | .port owner name => s!"port '{owner}.{name}'"
  | .edge id => s!"edge '{id}'"
  | .bus id => s!"bus '{id}'"

/-- A locator in a data file. -/
def toJson : Locator → Json
  | .patch => .obj [("kind", .str "patch")]
  | .block id => .obj [("kind", .str "block"), ("block", .str id)]
  | .port owner name => .obj [("kind", .str "port"), ("block", .str owner), ("port", .str name)]
  | .edge id => .obj [("kind", .str "edge"), ("edge", .str id)]
  | .bus id => .obj [("kind", .str "bus"), ("bus", .str id)]

end Locator

/-- Another part of the patch that a diagnostic points to. -/
structure Related where
  locator : Locator
  label : String
  deriving DecidableEq

/-- Why a diagnostic came about. -/
structure Cause where
  message : String
  locator : Option Locator
  deriving DecidableEq

/-- A diagnostic. -/
structure Diagnostic where
  code : Option DiagCode
  level : Level
  locator : Locator
  message : String
  hint : Option String := none
  related : List Related := []
  causes : List Cause := []
  deriving DecidableEq

namespace Diagnostic

/-- An error. -/
def error (code : DiagCode) (locator : Locator) (message : String) : Diagnostic :=
  { code := some code, level := .error, locator, message }

/-- The diagnostic with a hint on what to do. -/
def withHint (d : Diagnostic) (hint : String) : Diagnostic := { d with hint := some hint }

/-- The diagnostic with other parts it points to. -/
def withRelated (d : Diagnostic) (label : String) (locators : List Locator) : Diagnostic :=
  { d with related := d.related ++ locators.map fun l => ⟨l, label⟩ }

/-- The diagnostic with a further cause. -/
def withCause (d : Diagnostic) (message : String) (locator : Option Locator) : Diagnostic :=
  { d with causes := d.causes ++ [⟨message, locator⟩] }

/-- Whether a diagnostic is an error. -/
def isError (d : Diagnostic) : Bool := d.level = .error

/-- A diagnostic as a reader sees it. -/
def display (d : Diagnostic) : String :=
  let code := match d.code with
    | none => ""
    | some c => s!"[{c.number}]"
  let notes := d.related.map fun r => s!"\n  note: {r.label} ({r.locator.display})"
  let hint := match d.hint with
    | none => ""
    | some h => s!"\n  hint: {h}"
  s!"{d.level.name}{code}: {d.message}\n  --> {d.locator.display}" ++ String.join notes ++ hint

/-- A diagnostic in a data file. -/
def toJson (d : Diagnostic) : Json :=
  .obj [("code", Json.optional (fun c => .str c.number) d.code),
    ("level", .str d.level.name),
    ("locator", d.locator.toJson),
    ("message", .str d.message),
    ("hint", Json.optional Json.str d.hint),
    ("related", .arr (d.related.map fun r => .obj [("locator", r.locator.toJson), ("label", .str r.label)])),
    ("cause_chain", .arr (d.causes.map fun c =>
      .obj [("message", .str c.message), ("locator", Json.optional Locator.toJson c.locator)]))]

end Diagnostic

/-- Whether there is an error among diagnostics. -/
def hasErrors (ds : List Diagnostic) : Bool := ds.any Diagnostic.isError

end PatchGraph
