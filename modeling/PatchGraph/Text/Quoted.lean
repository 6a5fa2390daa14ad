import PatchGraph.Text.CharTable

/-!
# Quoted text in messages

A text is shown between double quotes. The quote, the backslash and the common controls have short escapes; every other
character that has no visible form, or that would merge with the one before it, is shown by its code point in braces.
-/

namespace PatchGraph.Text

/-- The lower-case hexadecimal digits of a code point. -/
def hexDigits (n : Nat) : List Char := Nat.toDigits 16 n

/-- Whether a character is shown by its code point. -/
def isHidden (c : Char) : Bool :=
  c.toNat < 0x20 || (0x7f ≤ c.toNat && (CharTable.covers CharTable.extending c.toNat
    || CharTable.covers CharTable.unprintable c.toNat))

/-- One character of a quoted text. -/
def quoteChar (c : Char) : List Char :=
  if c = '\x00' then ['\\', '0']
  else if c = '\t' then ['\\', 't']
  else if c = '\r' then ['\\', 'r']
  else if c = '\n' then ['\\', 'n']
  else if c = '"' then ['\\', '"']
  else if c = '\\' then ['\\', '\\']
  else if isHidden c then ['\\', 'u', '\x7b'] ++ hexDigits c.toNat ++ ['\x7d']
  else [c]

/-- A text between quotes, with its special characters escaped. -/
def quoted (s : String) : String := String.ofList ('"' :: s.toList.flatMap quoteChar ++ ['"'])

end PatchGraph.Text
