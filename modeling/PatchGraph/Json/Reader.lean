import PatchGraph.Json.Source
import PatchGraph.Text.Width

/-!
# Reading JSON text

The reader follows the text and stops at its first defect; what remains of the text then starts at the character that does not
fit. Nesting is not bounded here: whoever holds a value bounds it. Each step of the reader uses up one unit of `fuel`, and three
times the length of the text is always enough: a list opens, turns to its first item and reads it in three steps, and every
further round of three steps reads a character too.
-/

namespace PatchGraph.Json

/-- The characters that may stand between the parts of a JSON text. -/
def isBlank (c : Char) : Bool := c = ' ' || c = '\n' || c = '\t' || c = '\r'

/-- The text after its leading blanks. -/
def skipBlanks (cs : List Char) : List Char := cs.dropWhile isBlank

/-- A decimal digit. -/
def isDigit (c : Char) : Bool := '0' ≤ c && c ≤ '9'

namespace Reader

/-! ## Words and numbers -/

/-- What a reader finds at a place: a value and the text after it, or a defect and the text from the character that does not fit. -/
inductive Found (α : Type) where
  | value (a : α) (rest : List Char)
  | defect (d : Defect) (rest : List Char)

/-- Match the rest of a word. -/
def word (value : Source) : List Char → List Char → Found Source
  | [], cs => .value value cs
  | _ :: _, [] => .defect (.both .endInValue) []
  | w :: ws, c :: cs => if w = c then word value ws cs else .defect (.both .expectedWord) (c :: cs)

/-- A number that stops where a digit should stand: at the end of the text it is cut off, else it is malformed. -/
def digitExpected {α : Type} (cs : List Char) : Found α :=
  .defect (if cs.isEmpty then ⟨.endInValue, .invalidNumber⟩ else .both .invalidNumber) cs

/-- The exponent of a number, after its mark. -/
def exponent (n : Numeral) (cs : List Char) : Found Numeral :=
  let (negative, ds) : Bool × List Char := match cs with
    | '+' :: rest => (false, rest)
    | '-' :: rest => (true, rest)
    | _ => (false, cs)
  let digits := ds.takeWhile isDigit
  if digits.isEmpty then digitExpected ds
  else
    let e : Int := digitsValue digits
    .value { n with exponent := some (if negative then -e else e) } (ds.dropWhile isDigit)

/-- An exponent, if there is one. -/
def optionalExponent (n : Numeral) : List Char → Found Numeral
  | 'e' :: rest | 'E' :: rest => exponent n rest
  | cs => .value n cs

/-- The digits after a point, if there is one, and the exponent. -/
def afterWhole (n : Numeral) : List Char → Found Numeral
  | '.' :: rest =>
    let digits := rest.takeWhile isDigit
    if digits.isEmpty then digitExpected rest
    else optionalExponent { n with fraction := digits } (rest.dropWhile isDigit)
  | cs => optionalExponent n cs

/-- An unsigned number: the digits before the point start with zero only if zero is the only one. -/
def unsigned (negative : Bool) (cs : List Char) : Found Numeral :=
  match cs with
  | '0' :: rest =>
    match rest with
    | c :: _ => if isDigit c then .defect (.both .invalidNumber) rest else afterWhole { negative, whole := ['0'] } rest
    | [] => .value { negative, whole := ['0'] } []
  | _ =>
    let digits := cs.takeWhile isDigit
    if digits.isEmpty then digitExpected cs else afterWhole { negative, whole := digits } (cs.dropWhile isDigit)

/-! ## Strings -/

/-- One step through a string. -/
inductive Piece where
  | close
  | char (c : Char)
  | unpaired (f : Fault)
  | broken (f : Fault)

/-- The value of a hexadecimal digit. -/
def hexValue (c : Char) : Option Nat :=
  if '0' ≤ c ∧ c ≤ '9' then some (c.toNat - '0'.toNat)
  else if 'a' ≤ c ∧ c ≤ 'f' then some (c.toNat - 'a'.toNat + 10)
  else if 'A' ≤ c ∧ c ≤ 'F' then some (c.toNat - 'A'.toNat + 10)
  else none

/-- Four hexadecimal digits. Fewer than four bytes up to the end of the text count as a text cut off. -/
def hexUnit (cs : List Char) : Except Fault (Nat × List Char) :=
  match cs with
  | a :: b :: c :: d :: rest =>
    match hexValue a, hexValue b, hexValue c, hexValue d with
    | some a, some b, some c, some d => .ok (((a * 16 + b) * 16 + c) * 16 + d, rest)
    | _, _, _, _ => .error .invalidEscape
  | _ => if Text.width cs < 4 then .error .endInString else .error .invalidEscape

/-- The low half of a surrogate pair, given the high half: the character and the text after it, or why there is none. -/
def lowSurrogate (high : Nat) : List Char → Except Fault (Char × List Char)
  | [] => .error .endInString
  | '\\' :: [] => .error .endInString
  | '\\' :: 'u' :: cs => do
    let (low, rest) ← hexUnit cs
    if low < 0xdc00 ∨ 0xdfff < low then .error .loneSurrogate
    else .ok (Char.ofNat ((high - 0xd800) * 0x400 + (low - 0xdc00) + 0x10000), rest)
  | _ => .error .unfinishedSurrogate

/-- A character written by its code unit, after the mark. A unit that should pair and does not is passed over alone. -/
def unitEscape (cs : List Char) : Piece × List Char :=
  match hexUnit cs with
  | .error f => (.broken f, cs)
  | .ok (unit, rest) =>
    if unit < 0xd800 ∨ 0xdfff < unit then (.char (Char.ofNat unit), rest)
    else if 0xdc00 ≤ unit then (.unpaired .loneSurrogate, rest)
    else match lowSurrogate unit rest with
      | .ok (c, rest) => (.char c, rest)
      | .error f => (.unpaired f, rest)

/-- A character after a backslash. -/
def escape : List Char → Piece × List Char
  | [] => (.broken .endInString, [])
  | '"' :: rest => (.char '"', rest)
  | '\\' :: rest => (.char '\\', rest)
  | '/' :: rest => (.char '/', rest)
  | 'b' :: rest => (.char '\x08', rest)
  | 'f' :: rest => (.char '\x0c', rest)
  | 'n' :: rest => (.char '\n', rest)
  | 'r' :: rest => (.char '\r', rest)
  | 't' :: rest => (.char '\t', rest)
  | 'u' :: rest => unitEscape rest
  | cs => (.broken .invalidEscape, cs)

/-- The next step through a string. -/
def piece : List Char → Piece × List Char
  | [] => (.broken .endInString, [])
  | '"' :: rest => (.close, rest)
  | '\\' :: rest => escape rest
  | c :: rest => if c.toNat < 0x20 then (.broken .controlCharacter, c :: rest) else (.char c, rest)

/-- The rest of a string: the characters read so far, last first, and the first unpaired surrogate. -/
def stringRest : Nat → List Char → Option Fault → List Char → Quoted × List Char
  | 0, _, _, cs => (.broken (.both .endInString), cs)
  | fuel + 1, read, pending, cs =>
    match piece cs with
    | (.close, rest) => ((pending.map Quoted.unpaired).getD (.text (String.ofList read.reverse)), rest)
    | (.char c, rest) => stringRest fuel (c :: read) pending rest
    | (.unpaired f, rest) => stringRest fuel read (pending.or (some f)) rest
    | (.broken f, rest) => (.broken ⟨pending.getD f, f⟩, rest)

/-- A string, after its opening quote. -/
def string (cs : List Char) : Quoted × List Char := stringRest (cs.length + 1) [] none cs

/-! ## Values -/

/-- A value read from the start of a text, what remains of the text, and whether the value is whole. -/
structure Reading where
  value : Source
  rest : List Char
  whole : Bool

/-- A reading from what was found at a place. -/
def Reading.ofFound {α : Type} (b : Breach) (f : α → Source) : Found α → Reading
  | .value a rest => ⟨f a, rest, true⟩
  | .defect d rest => ⟨.broken b d, rest, false⟩

/-- A string as a reading. -/
def Reading.ofString (q : Quoted × List Char) : Reading :=
  ⟨.string q.1, q.2, match q.1 with | .broken _ => false | _ => true⟩

/-- The items of a list, or the members of an object, as far as they were read. -/
structure Entries (α : Type) where
  entries : List α
  ending : Ending
  rest : List Char
  whole : Bool

/-- One more entry in front. -/
def Entries.push {α : Type} (a : α) (e : Entries α) : Entries α := { e with entries := a :: e.entries }

/-- Entries that end here, by a defect. -/
def Entries.broken {α : Type} (d : Defect) (rest : List Char) : Entries α := ⟨[], .broken d, rest, false⟩

mutual

/-- The value at the start of a text. -/
def value : Nat → List Char → Reading
  | 0, cs => ⟨.missing, cs, false⟩
  | fuel + 1, cs =>
    match skipBlanks cs with
    | [] => ⟨.missing, [], false⟩
    | 'n' :: rest => .ofFound .null id (word .null ['u', 'l', 'l'] rest)
    | 't' :: rest => .ofFound .other id (word (.bool true) ['r', 'u', 'e'] rest)
    | 'f' :: rest => .ofFound .other id (word (.bool false) ['a', 'l', 's', 'e'] rest)
    | '"' :: rest => .ofString (string rest)
    | '-' :: rest => .ofFound .other .number (unsigned true rest)
    | '[' :: rest =>
      let list := items fuel true rest
      ⟨.array list.entries list.ending, list.rest, list.whole⟩
    | '\x7b' :: rest =>
      let object := members fuel true rest
      ⟨.object object.entries object.ending, object.rest, object.whole⟩
    | c :: rest =>
      if isDigit c then .ofFound .other .number (unsigned false (c :: rest))
      else ⟨.broken .other (.both .expectedValue), c :: rest, false⟩

/-- The items of a list, from the opening bracket (`first`) or from behind an item. -/
def items : Nat → Bool → List Char → Entries Source
  | 0, _, cs => .broken (.both .endInList) cs
  | fuel + 1, first, cs =>
    match skipBlanks cs with
    | [] => .broken (.both .endInList) []
    | ']' :: rest => ⟨[], .closed, rest, true⟩
    | c :: rest =>
      if first then item fuel (c :: rest)
      else if c = ',' then
        match skipBlanks rest with
        | [] => .broken (.both .endInValue) []
        | ']' :: after => .broken ⟨.trailingComma, .expectedValue⟩ (']' :: after)
        | next => item fuel next
      else .broken (.both .expectedListSeparator) (c :: rest)

/-- An item of a list and those after it. -/
def item : Nat → List Char → Entries Source
  | 0, cs => .broken (.both .endInList) cs
  | fuel + 1, cs =>
    let read := value fuel cs
    if read.whole then (items fuel false read.rest).push read.value else ⟨[read.value], .inside, read.rest, false⟩

/-- The members of an object, from the opening brace (`first`) or from behind a member. -/
def members : Nat → Bool → List Char → Entries (Quoted × Source)
  | 0, _, cs => .broken (.both .endInObject) cs
  | fuel + 1, first, cs =>
    match skipBlanks cs with
    | [] => .broken (.both .endInObject) []
    | '\x7d' :: rest => ⟨[], .closed, rest, true⟩
    | c :: rest =>
      if first then member fuel (c :: rest)
      else if c = ',' then
        match skipBlanks rest with
        | [] => .broken ⟨.endInValue, .endInObject⟩ []
        | '\x7d' :: after => .broken ⟨.trailingComma, .keyNotString⟩ ('\x7d' :: after)
        | next => member fuel next
      else .broken (.both .expectedObjectSeparator) (c :: rest)

/-- A member of an object and those after it. -/
def member : Nat → List Char → Entries (Quoted × Source)
  | 0, cs => .broken (.both .endInObject) cs
  | fuel + 1, cs =>
    match cs with
    | '"' :: rest =>
      match string rest with
      | (.broken d, rest) => ⟨[(.broken d, .missing)], .inside, rest, false⟩
      | (key, rest) =>
        match skipBlanks rest with
        | ':' :: rest =>
          let read := value fuel rest
          if read.whole then (members fuel false read.rest).push (key, read.value)
          else ⟨[(key, read.value)], .inside, read.rest, false⟩
        | [] => ⟨[(key, .broken .colon (.both .endInObject))], .inside, [], false⟩
        | rest => ⟨[(key, .broken .colon (.both .expectedColon))], .inside, rest, false⟩
    | _ => .broken (.both .keyNotString) cs

end

/-- Read the value at the start of a text. -/
def start (cs : List Char) : Reading := value (3 * cs.length + 3) cs

end Reader

/-- A whole text: the value at its start and what stands after it. -/
structure Document where
  value : Source
  rest : List Char

/-- Read a text. -/
def Document.read (text : String) : Document :=
  let r := Reader.start text.toList
  ⟨r.value, r.rest⟩

end PatchGraph.Json
