import PatchGraph.TypeText.Token

/-!
# The grammar of type texts

A type text is an optional `internal`, a world, a domain in angle brackets and any number of annotations, each a key and a value:

    Signal<float> @unit(ms)

The parser reads the tokens of a text even if the text has stray characters, so that both kinds of error are reported.
-/

namespace PatchGraph.TypeText

/-- The parts of a type text. -/
structure Raw where
  internal : Bool
  world : String
  domain : String
  annotations : List (String × String)
  deriving DecidableEq

/-- What the grammar asks for at a place. -/
inductive Slot where
  | start | word | less | greater | opening | closing
  /-- An annotation or the end. -/
  | more
  deriving DecidableEq

/-- Whether a token fits a place. -/
def Slot.accepts : Slot → Token → Bool
  | .start, .internal | .start, .word _ | .word, .word _ | .less, .less | .greater, .greater | .opening, .opening
  | .closing, .closing | .more, .at => true
  | _, _ => false

/-- A place as messages show it. -/
def Slot.display : Slot → String
  | .start => "'internal', or '<ident>'"
  | .word => "'<ident>'"
  | .less => "'<'"
  | .greater => "'>'"
  | .opening => "'('"
  | .closing => "')'"
  | .more => "'@', or end of input"

/-- A token that does not fit, or none at the end of the text, and the place it does not fit. -/
structure Misfit where
  found : Option Token
  expected : Slot
  deriving DecidableEq

/-- The wording of a misfit. -/
def Misfit.message (m : Misfit) : String :=
  let found := match m.found with
    | none => "end of input"
    | some t => "'" ++ t.display ++ "'"
  s!"found {found} expected {m.expected.display}"

/-- The first place of a row of places that the tokens do not fit. -/
def misfit : List Slot → List Token → Misfit
  | [], ts => ⟨ts.head?, .more⟩
  | slot :: _, [] => ⟨none, slot⟩
  | slot :: slots, t :: ts => if slot.accepts t then misfit slots ts else ⟨some t, slot⟩

/-- Annotations up to the end of the text. -/
def annotations : List Token → Except Misfit (List (String × String))
  | [] => .ok []
  | .at :: .word key :: .opening :: .word value :: .closing :: rest => (annotations rest).map ((key, value) :: ·)
  | ts => .error (misfit [.more, .word, .opening, .word, .closing] ts)

/-- A type after its optional `internal`; `first` is what the grammar asks for at its start. -/
def body (internal : Bool) (first : Slot) : List Token → Except Misfit Raw
  | .word world :: .less :: .word domain :: .greater :: rest =>
    (annotations rest).map fun notes => ⟨internal, world, domain, notes⟩
  | ts => .error (misfit [first, .less, .word, .greater] ts)

/-- The parts of a type from its tokens. -/
def ofTokens : List Token → Except Misfit Raw
  | .internal :: rest => body true .word rest
  | ts => body false .start ts

/-- What is wrong with a type text. -/
inductive Error where
  | stray (c : Char) (span : Span)
  | misfit (m : Misfit)
  deriving DecidableEq

/-- The wording of an error. -/
def Error.message : Error → String
  | .stray c span => s!"{strayMessage c} at {span.start}..{span.stop}"
  | .misfit m => m.message

/-- Parse a type text: its parts, or every stray character in order and then the first misfit. -/
def parse (text : String) : Except (List Error) Raw :=
  let ls := lexemes text
  let strays := (straysOf ls).map fun (c, span) => Error.stray c span
  match ofTokens ((tokensOf ls).map (·.1)) with
  | .ok raw => if strays.isEmpty then .ok raw else .error strays
  | .error m => .error (strays ++ [.misfit m])

end PatchGraph.TypeText
