import Mathlib.Logic.Relation
import PatchGraph.Json.Reader

/-!
# JSON as it is written

A JSON text is a list of tokens with blanks between them: brackets, commas, colons, words, numbers and strings. A `Written` value is
the tree of these tokens, so it has every detail of the text except the blanks: which digits a number has, and how each character of a
string is spelled. Two texts differ only in blanks and in the order of members if one tree becomes the other by swapping neighbours
among the members of its objects (`Swapped`).
-/

namespace PatchGraph.Json

/-! ## Numbers -/

/-- One decimal digit or more. -/
structure Digits where
  chars : List Char
  nonempty : chars ≠ []
  digits : chars.all isDigit = true

/-- The exponent of a number: its mark, its sign if one is written (`true` is the minus), and its digits. -/
structure WrittenExponent where
  capital : Bool
  sign : Option Bool
  digits : Digits

/-- A number: no zero stands in front of its digits, unless it is the only one before the point. -/
structure WrittenNumber where
  negative : Bool
  whole : Digits
  fraction : Option Digits
  exponent : Option WrittenExponent
  unpadded : whole.chars.head? = some '0' → whole.chars = ['0']

/-- The text of an exponent. -/
def WrittenExponent.chars (e : WrittenExponent) : List Char :=
  (if e.capital then 'E' else 'e') :: (e.sign.toList.map fun minus => if minus then '-' else '+') ++ e.digits.chars

/-- The text of a number. -/
def WrittenNumber.chars (n : WrittenNumber) : List Char :=
  (if n.negative then ['-'] else []) ++ n.whole.chars ++ (n.fraction.elim [] fun d => '.' :: d.chars)
    ++ n.exponent.elim [] WrittenExponent.chars

/-! ## Strings -/

/-- The characters that stand for one character after a backslash. -/
inductive Mark where
  | quote | backslash | slash | backspace | formFeed | newLine | carriageReturn | tab

/-- A mark. -/
def Mark.char : Mark → Char
  | .quote => '"'
  | .backslash => '\\'
  | .slash => '/'
  | .backspace => 'b'
  | .formFeed => 'f'
  | .newLine => 'n'
  | .carriageReturn => 'r'
  | .tab => 't'

/-- The character that a mark stands for. -/
def Mark.meaning : Mark → Char
  | .quote => '"'
  | .backslash => '\\'
  | .slash => '/'
  | .backspace => '\x08'
  | .formFeed => '\x0c'
  | .newLine => '\n'
  | .carriageReturn => '\r'
  | .tab => '\t'

/-- A hexadecimal digit and its value. -/
structure HexDigit where
  char : Char
  value : Nat
  hex : Reader.hexValue char = some value

/-- A piece of a string: a character as it is, a character by its mark, or a code unit by its four hexadecimal digits. -/
inductive Piece where
  | plain (c : Char) (free : c ≠ '"' ∧ c ≠ '\\' ∧ 0x20 ≤ c.toNat)
  | mark (m : Mark)
  | unit (a b c d : HexDigit)

/-- The text of a piece. -/
def Piece.chars : Piece → List Char
  | .plain c _ => [c]
  | .mark m => ['\\', m.char]
  | .unit a b c d => ['\\', 'u', a.char, b.char, c.char, d.char]

/-- The one or two code units of a character. -/
def utf16 (c : Char) : List Nat :=
  if c.toNat < 0x10000 then [c.toNat] else [0xd800 + (c.toNat - 0x10000) / 0x400, 0xdc00 + (c.toNat - 0x10000) % 0x400]

/-- The code units that a piece stands for. -/
def Piece.units : Piece → List Nat
  | .plain c _ => utf16 c
  | .mark m => utf16 m.meaning
  | .unit a b c d => [((a.value * 16 + b.value) * 16 + c.value) * 16 + d.value]

/-- A string, piece by piece. -/
abbrev Spelling := List Piece

namespace Spelling

/-- The text of a string between its quotes. -/
def inner (s : Spelling) : List Char := s.flatMap Piece.chars

/-- The text of a string. -/
def chars (s : Spelling) : List Char := '"' :: (s.inner ++ ['"'])

/-- The code units that a string stands for. Two strings with the same units are the same string. -/
def units (s : Spelling) : List Nat := s.flatMap Piece.units

/-- A string is written piece by piece. -/
theorem inner_cons (p : Piece) (s : Spelling) : inner (p :: s) = p.chars ++ s.inner := List.flatMap_cons

/-- A string stands for what its pieces stand for. -/
theorem units_cons (p : Piece) (s : Spelling) : units (p :: s) = p.units ++ s.units := List.flatMap_cons

end Spelling

/-! ## Values -/

/-- A JSON value as it is written, but for the blanks. -/
inductive Written where
  | null
  | bool (b : Bool)
  | number (n : WrittenNumber)
  | string (s : Spelling)
  | array (items : List Written)
  | object (members : List (Spelling × Written))

namespace Written

mutual

/-- The tokens of a value, each by its text. -/
@[simp] def tokens : Written → List (List Char)
  | .null => [['n', 'u', 'l', 'l']]
  | .bool true => [['t', 'r', 'u', 'e']]
  | .bool false => [['f', 'a', 'l', 's', 'e']]
  | .number n => [n.chars]
  | .string s => [s.chars]
  | .array [] => [['['], [']']]
  | .array (item :: rest) => ['['] :: (tokens item ++ itemsTokens rest)
  | .object [] => [['\x7b'], ['\x7d']]
  | .object ((key, value) :: rest) => ['\x7b'] :: key.chars :: [':'] :: (tokens value ++ membersTokens rest)

/-- The tokens of a list from behind an item on. -/
@[simp] def itemsTokens : List Written → List (List Char)
  | [] => [[']']]
  | item :: rest => [','] :: (tokens item ++ itemsTokens rest)

/-- The tokens of an object from behind a member on. -/
@[simp] def membersTokens : List (Spelling × Written) → List (List Char)
  | [] => [['\x7d']]
  | (key, value) :: rest => [','] :: key.chars :: [':'] :: (tokens value ++ membersTokens rest)

end

end Written

/-- A text that consists of tokens, with blanks in front of each and at the end. -/
inductive Spaced : List (List Char) → List Char → Prop where
  | done {blanks : List Char} (h : blanks.all isBlank = true) : Spaced [] blanks
  | token {blanks t rest : List Char} {ts : List (List Char)} (h : blanks.all isBlank = true) (hrest : Spaced ts rest) :
    Spaced (t :: ts) (blanks ++ t ++ rest)

namespace Written

/-- A text of a value. -/
def IsTextOf (w : Written) (text : String) : Prop := Spaced w.tokens text.toList

/-- The text of a value with the same blanks in front of each token. -/
def text (blanks : List Char) (w : Written) : String := String.ofList (w.tokens.flatMap (blanks ++ ·))

/-- A value with the same blanks before each token is one of its texts. -/
theorem isTextOf_text {blanks : List Char} (h : blanks.all isBlank = true) (w : Written) : w.IsTextOf (w.text blanks) := by
  have hspaced : ∀ ts : List (List Char), Spaced ts (ts.flatMap (blanks ++ ·)) := by
    intro ts
    induction ts with
    | nil => exact .done rfl
    | cons t ts ih => exact .token h ih
  rw [IsTextOf, text, String.toList_ofList]
  exact hspaced w.tokens

/-! ## The order of members -/

/-- Two neighbours among the members of one object, at any depth, have changed places. -/
inductive Swapped : Written → Written → Prop where
  | swap {before after : List (Spelling × Written)} (a b : Spelling × Written) :
    Swapped (.object (before ++ a :: b :: after)) (.object (before ++ b :: a :: after))
  | item {before after : List Written} {v w : Written} (h : Swapped v w) :
    Swapped (.array (before ++ v :: after)) (.array (before ++ w :: after))
  | member {before after : List (Spelling × Written)} {key : Spelling} {v w : Written} (h : Swapped v w) :
    Swapped (.object (before ++ (key, v) :: after)) (.object (before ++ (key, w) :: after))

/-- The members of objects have changed places. -/
abbrev Rearranged : Written → Written → Prop := Relation.ReflTransGen Swapped

mutual

/-- No key occurs twice in an object. -/
def DistinctKeys : Written → Prop
  | .null | .bool _ | .number _ | .string _ => True
  | .array items => ItemsDistinct items
  | .object members => (members.map fun m => m.1.units).Nodup ∧ MembersDistinct members

/-- No key occurs twice in an object among the items of a list. -/
def ItemsDistinct : List Written → Prop
  | [] => True
  | item :: rest => DistinctKeys item ∧ ItemsDistinct rest

/-- No key occurs twice in an object among the values of members. -/
def MembersDistinct : List (Spelling × Written) → Prop
  | [] => True
  | (_, value) :: rest => DistinctKeys value ∧ MembersDistinct rest

end

/-- No key is repeated in items if none is in any of them. -/
theorem itemsDistinct_iff {items : List Written} : ItemsDistinct items ↔ ∀ item ∈ items, item.DistinctKeys := by
  induction items with
  | nil => simp [ItemsDistinct]
  | cons item rest ih => simp [ItemsDistinct, ih]

/-- No key is repeated inside of members if none is in any of their values. -/
theorem membersDistinct_iff {members : List (Spelling × Written)} :
    MembersDistinct members ↔ ∀ m ∈ members, m.2.DistinctKeys := by
  induction members with
  | nil => simp [MembersDistinct]
  | cons m rest ih => simp [MembersDistinct, ih]

end Written

end PatchGraph.Json
