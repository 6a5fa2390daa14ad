import PatchGraph.Text.Quoted
import PatchGraph.Text.Width

/-!
# Tokens of type texts

A type text is cut into tokens and stray characters, between runs of blanks. A word is as long as it can be: it starts with a letter, a
digit or an underscore and may go on with dots and slashes. The word `internal` is a token of its own. Places are counted in
bytes.
-/

namespace PatchGraph.TypeText

/-- A token of a type text. -/
inductive Token where
  | internal
  | word (text : String)
  | less
  | greater
  | at
  | opening
  | closing
  deriving DecidableEq

/-- A token as messages show it. -/
def Token.display : Token → String
  | .internal => "internal"
  | .word _ => "<ident>"
  | .less => "<"
  | .greater => ">"
  | .at => "@"
  | .opening => "("
  | .closing => ")"

/-- A stretch of a text, in bytes: the place of its start and the place after its end. -/
structure Span where
  start : Nat
  stop : Nat
  deriving DecidableEq

/-- A token or a character that belongs to none, with its place. -/
inductive Lexeme where
  | token (t : Token) (span : Span)
  | stray (c : Char) (span : Span)
  deriving DecidableEq

/-- A character between tokens. -/
def isSpace (c : Char) : Bool := c = ' ' || c = '\t' || c = '\r' || c = '\n'

/-- A character that may start a word. -/
def isWordStart (c : Char) : Bool := c.isAlphanum || c = '_'

/-- A character that may go on in a word. -/
def isWordPart (c : Char) : Bool := isWordStart c || c = '.' || c = '/'

/-- The token a single character is. -/
def symbol? : Char → Option Token
  | '<' => some .less
  | '>' => some .greater
  | '@' => some .at
  | '(' => some .opening
  | ')' => some .closing
  | _ => none

/-- The token of a word. -/
def Token.ofWord (cs : List Char) : Token :=
  if cs = ['i', 'n', 't', 'e', 'r', 'n', 'a', 'l'] then .internal else .word (String.ofList cs)

/-- Cut a text, which starts at a place, into lexemes. -/
def scan (place : Nat) : List Char → List Lexeme
  | [] => []
  | c :: rest =>
    if isSpace c then scan (place + c.utf8Size) rest
    else if isWordStart c then
      let word := c :: rest.takeWhile isWordPart
      .token (Token.ofWord word) ⟨place, place + Text.width word⟩ :: scan (place + Text.width word) (rest.dropWhile isWordPart)
    else
      let span : Span := ⟨place, place + c.utf8Size⟩
      match symbol? c with
      | some t => .token t span :: scan span.stop rest
      | none => .stray c span :: scan span.stop rest
  termination_by cs => cs.length
  decreasing_by
    all_goals first
      | exact Nat.lt_succ_self _
      | exact Nat.lt_succ_of_le (List.dropWhile_sublist isWordPart).length_le

/-- The lexemes of a text. -/
def lexemes (text : String) : List Lexeme := scan 0 text.toList

/-- The tokens among lexemes, with their places. -/
def tokensOf (ls : List Lexeme) : List (Token × Span) :=
  ls.filterMap fun
    | .token t span => some (t, span)
    | .stray _ _ => none

/-- The stray characters among lexemes, with their places. -/
def straysOf (ls : List Lexeme) : List (Char × Span) :=
  ls.filterMap fun
    | .token _ _ => none
    | .stray c span => some (c, span)

/-- The wording for a stray character. -/
def strayMessage (c : Char) : String := "unexpected character: " ++ Text.quoted (String.ofList [c])

end PatchGraph.TypeText
