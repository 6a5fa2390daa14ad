import PatchGraph.Json.Basic

/-!
# JSON as it is read

A text is read into a `Source`, which follows the text as far as it is well formed: where the text breaks off, the tree holds the
defect at that place. What reads the tree in the order of the text therefore meets the first fault of the text first, whether
it is a fault of the text or of what the text says.

A value can be read for what it says or only passed over. The two report some defects differently, so a `Defect` holds both
reports, and a string whose surrogate escapes do not pair is a defect only for the first.
-/

namespace PatchGraph.Json

/-- What can be wrong with the text of a JSON value. -/
inductive Fault where
  | endInList | endInObject | endInString | endInValue
  | expectedColon | expectedListSeparator | expectedObjectSeparator | expectedWord | expectedValue
  | invalidEscape | invalidNumber | numberOutOfRange | controlCharacter | keyNotString
  | loneSurrogate | trailingComma | trailingCharacters | unfinishedSurrogate | tooDeep
  deriving DecidableEq

namespace Fault

/-- Whether the text ended too early. -/
def isEnd : Fault → Bool
  | .endInList | .endInObject | .endInString | .endInValue => true
  | _ => false

/-- The wording of a fault. -/
def message : Fault → String
  | .endInList => "EOF while parsing a list"
  | .endInObject => "EOF while parsing an object"
  | .endInString => "EOF while parsing a string"
  | .endInValue => "EOF while parsing a value"
  | .expectedColon => "expected `:`"
  | .expectedListSeparator => "expected `,` or `]`"
  | .expectedObjectSeparator => "expected `,` or `\x7d`"
  | .expectedWord => "expected ident"
  | .expectedValue => "expected value"
  | .invalidEscape => "invalid escape"
  | .invalidNumber => "invalid number"
  | .numberOutOfRange => "number out of range"
  | .controlCharacter => "control character (\\u0000-\\u001F) found while parsing a string"
  | .keyNotString => "key must be a string"
  | .loneSurrogate => "lone leading surrogate in hex escape"
  | .trailingComma => "trailing comma"
  | .trailingCharacters => "trailing characters"
  | .unfinishedSurrogate => "unexpected end of hex escape"
  | .tooDeep => "recursion limit exceeded"

end Fault

/-- A place where the text breaks off: what reading the value reports, and what passing over it reports. -/
structure Defect where
  reading : Fault
  passing : Fault
  deriving DecidableEq

/-- A defect that is reported the same way by both. -/
def Defect.both (f : Fault) : Defect := ⟨f, f⟩

/-- A string as read: its text, a text with an unpaired surrogate, or as far as the defect. -/
inductive Quoted where
  | text (s : String)
  | unpaired (f : Fault)
  | broken (d : Defect)
  deriving DecidableEq

/-- The end of a list or an object: closed, broken by a defect, or never reached because the last entry is broken itself. -/
inductive Ending where
  | closed
  | broken (d : Defect)
  | inside
  deriving DecidableEq

/-- How a text comes to hold no value where one should stand: the colon in front of the value is not there, the text starts as
`null` does and goes on otherwise, or something else stands there. Whoever decides by the first character what to read tells the
three apart. -/
inductive Breach where
  | colon
  | null
  | other
  deriving DecidableEq

/-- A JSON text as far as it is well formed. -/
inductive Source where
  /-- The text ends where a value should stand. -/
  | missing
  /-- No value can be read here. -/
  | broken (b : Breach) (d : Defect)
  | null
  | bool (b : Bool)
  | number (n : Numeral)
  | string (s : Quoted)
  | array (items : List Source) (ending : Ending)
  | object (members : List (Quoted × Source)) (ending : Ending)
  deriving Inhabited

namespace Quoted

/-- The text of a string, if it has one. -/
def get : Quoted → Except Fault String
  | .text s => .ok s
  | .unpaired f => .error f
  | .broken d => .error d.reading

/-- The fault that stops passing over a string. -/
def passingFault : Quoted → Option Fault
  | .broken d => some d.passing
  | _ => none

end Quoted

namespace Ending

/-- The fault that reading up to the end meets. -/
def readingFault : Ending → Option Fault
  | .broken d => some d.reading
  | _ => none

/-- The fault that passing over the end meets. -/
def passingFault : Ending → Option Fault
  | .broken d => some d.passing
  | _ => none

end Ending

namespace Source

mutual

/-- The first fault met when a value is passed over: its text must be well formed, and nothing else is asked of it. -/
def passingFault : Source → Option Fault
  | .missing => some .endInValue
  | .broken _ d => some d.passing
  | .null | .bool _ | .number _ => none
  | .string q => q.passingFault
  | .array items ending => (passingItems items).or ending.passingFault
  | .object members ending => (passingMembers members).or ending.passingFault

/-- The first fault in the items of a list that is passed over. -/
def passingItems : List Source → Option Fault
  | [] => none
  | item :: rest => (passingFault item).or (passingItems rest)

/-- The first fault in the members of an object that is passed over. -/
def passingMembers : List (Quoted × Source) → Option Fault
  | [] => none
  | (key, value) :: rest => (key.passingFault.or (passingFault value)).or (passingMembers rest)

end

/-- The number of nested lists and objects, counted from the start of the text, that a value held as a whole may not reach. -/
def depthLimit : Nat := 128

mutual

/-- The first fault met when a value is held as a whole before it is looked at, inside `depth` lists and objects: its strings must
have a text, its numbers must be finite and its nesting bounded. -/
def holdingFault (depth : Nat) : Source → Option Fault
  | .missing => some .endInValue
  | .broken _ d => some d.reading
  | .null | .bool _ => none
  | .number n => if n.read.isNone then some .numberOutOfRange else none
  | .string q => match q.get with
    | .ok _ => none
    | .error f => some f
  | .array items ending =>
    if depthLimit ≤ depth + 1 then some .tooDeep else (holdingItems (depth + 1) items).or ending.readingFault
  | .object members ending =>
    if depthLimit ≤ depth + 1 then some .tooDeep else (holdingMembers (depth + 1) members).or ending.readingFault

/-- The first fault in the items of a list that is held as a whole. -/
def holdingItems (depth : Nat) : List Source → Option Fault
  | [] => none
  | item :: rest => (holdingFault depth item).or (holdingItems depth rest)

/-- The first fault in the members of an object that is held as a whole. -/
def holdingMembers (depth : Nat) : List (Quoted × Source) → Option Fault
  | [] => none
  | (key, value) :: rest =>
    match key.get with
    | .error f => some f
    | .ok _ => (holdingFault depth value).or (holdingMembers depth rest)

end

mutual

/-- A value as it is read from its own text. -/
def ofJson : Json → Source
  | .null => .null
  | .bool b => .bool b
  | .num n => .number n
  | .str s => .string (.text s)
  | .arr items => .array (ofItems items) .closed
  | .obj members => .object (ofMembers members) .closed

/-- The items of an array as they are read. -/
def ofItems : List Json → List Source
  | [] => []
  | item :: rest => ofJson item :: ofItems rest

/-- The members of an object as they are read. -/
def ofMembers : List (String × Json) → List (Quoted × Source)
  | [] => []
  | (key, value) :: rest => (.text key, ofJson value) :: ofMembers rest

end

end Source

end PatchGraph.Json
