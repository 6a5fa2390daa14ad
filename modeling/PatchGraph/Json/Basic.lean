import PatchGraph.Number.Numeral

/-!
# JSON values and their text

A `Json` value keeps the members of an object in the order they are written. It has two texts: the compact one, without any
blanks, and the indented one, two blanks a level.
-/

namespace PatchGraph

/-- A JSON value. -/
inductive Json where
  | null
  | bool (b : Bool)
  | num (n : Numeral)
  | str (s : String)
  | arr (items : List Json)
  | obj (members : List (String × Json))
  deriving Inhabited

namespace Json

/-- The number of a natural number, as an identifier or a count. -/
def nat (n : Nat) : Json := .num (Numeral.ofInt n)

/-- The number of an integer. -/
def int (i : Int) : Json := .num (Numeral.ofInt i)

/-- The number of a double; what is not finite is null. -/
def float (x : Binary64) : Json := if x.isFinite then .num (Numeral.ofBinary64 x) else .null

/-- A value that may be absent, as null. -/
def optional {α : Type} (f : α → Json) : Option α → Json
  | none => .null
  | some a => f a

/-- The member of an optional value, left out when it is absent. -/
def member? {α : Type} (key : String) (f : α → Json) : Option α → List (String × Json)
  | none => []
  | some a => [(key, f a)]

/-- The member of a list, left out when it is empty. -/
def members? (key : String) : List Json → List (String × Json)
  | [] => []
  | items => [(key, .arr items)]

/-- The member of a flag, left out when it is false. -/
def flag? (key : String) (b : Bool) : List (String × Json) := if b then [(key, .bool true)] else []

/-! ## Text -/

/-- One character inside a JSON string. -/
def escapeChar (c : Char) : List Char :=
  if c = '"' then ['\\', '"']
  else if c = '\\' then ['\\', '\\']
  else if c = '\x08' then ['\\', 'b']
  else if c = '\t' then ['\\', 't']
  else if c = '\n' then ['\\', 'n']
  else if c = '\x0c' then ['\\', 'f']
  else if c = '\r' then ['\\', 'r']
  else if c.toNat < 0x20 then
    ['\\', 'u', '0', '0', Nat.digitChar (c.toNat / 16), Nat.digitChar (c.toNat % 16)]
  else [c]

/-- A string in its quotes. -/
def stringChars (s : String) : List Char := '"' :: s.toList.flatMap escapeChar ++ ['"']

mutual

/-- The compact text of a value. -/
def chars : Json → List Char
  | .null => ['n', 'u', 'l', 'l']
  | .bool true => ['t', 'r', 'u', 'e']
  | .bool false => ['f', 'a', 'l', 's', 'e']
  | .num n => n.chars
  | .str s => stringChars s
  | .arr items => '[' :: (itemsChars items ++ [']'])
  | .obj members => '\x7b' :: (membersChars members ++ ['\x7d'])

/-- The items of an array, separated by commas. -/
def itemsChars : List Json → List Char
  | [] => []
  | [item] => item.chars
  | item :: rest => item.chars ++ ',' :: itemsChars rest

/-- The members of an object, separated by commas. -/
def membersChars : List (String × Json) → List Char
  | [] => []
  | [(key, value)] => stringChars key ++ ':' :: value.chars
  | (key, value) :: rest => stringChars key ++ ':' :: (value.chars ++ ',' :: membersChars rest)

end

/-- The compact text of a value, as a string. -/
def compact (j : Json) : String := String.ofList j.chars

/-- A new line, indented by a number of levels. -/
def newLine (level : Nat) : List Char := '\n' :: List.replicate (2 * level) ' '

mutual

/-- The indented text of a value that stands at a level. -/
def indented (level : Nat) : Json → List Char
  | .null => ['n', 'u', 'l', 'l']
  | .bool true => ['t', 'r', 'u', 'e']
  | .bool false => ['f', 'a', 'l', 's', 'e']
  | .num n => n.chars
  | .str s => stringChars s
  | .arr [] => ['[', ']']
  | .arr (item :: rest) =>
    '[' :: (newLine (level + 1) ++ indented (level + 1) item ++ indentedItems (level + 1) rest ++ newLine level ++ [']'])
  | .obj [] => ['\x7b', '\x7d']
  | .obj ((key, value) :: rest) =>
    '\x7b' :: (newLine (level + 1) ++ stringChars key ++ [':', ' '] ++ indented (level + 1) value
      ++ indentedMembers (level + 1) rest ++ newLine level ++ ['\x7d'])

/-- The items after the first. -/
def indentedItems (level : Nat) : List Json → List Char
  | [] => []
  | item :: rest => ',' :: (newLine level ++ indented level item ++ indentedItems level rest)

/-- The members after the first. -/
def indentedMembers (level : Nat) : List (String × Json) → List Char
  | [] => []
  | (key, value) :: rest =>
    ',' :: (newLine level ++ stringChars key ++ [':', ' '] ++ indented level value ++ indentedMembers level rest)

end

/-- The indented text of a value, as a string. -/
def pretty (j : Json) : String := String.ofList (j.indented 0)

end Json

end PatchGraph
