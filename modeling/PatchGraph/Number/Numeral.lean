import PatchGraph.Number.Rounding
import PatchGraph.Number.Shortest

/-!
# Numerals: numbers as they are written

A `Numeral` is a number's written form: a sign, the digits before the point, the digits after it and a power of ten. Doubles have
two layouts. In data files the digits are positional from `1e-5` up to `1e16`, with at least one digit after the point, and carry an
exponent elsewhere. In messages they are always positional, and a whole number has no point.
-/

namespace PatchGraph

/-- A number as written. No digits after the point means that there is no point. -/
structure Numeral where
  negative : Bool := false
  whole : List Char
  fraction : List Char := []
  exponent : Option Int := none
  deriving DecidableEq, Inhabited

/-- The decimal digits of a natural number. -/
def decimalDigits (n : Nat) : List Char := Nat.toDigits 10 n

/-- The natural number that decimal digits write. -/
def digitsValue (ds : List Char) : Nat := ds.foldl (fun n c => 10 * n + (c.toNat - '0'.toNat)) 0

namespace Numeral

/-- The exponent part of a numeral: its sign is always written. -/
def exponentChars : Option Int → List Char
  | none => []
  | some e => 'e' :: (if e < 0 then '-' else '+') :: decimalDigits e.natAbs

/-- The text of a numeral. -/
def chars (n : Numeral) : List Char :=
  (if n.negative then ['-'] else []) ++ n.whole ++ (if n.fraction.isEmpty then [] else '.' :: n.fraction)
    ++ exponentChars n.exponent

/-- The numeral of an integer. -/
def ofInt (i : Int) : Numeral := { negative := i < 0, whole := decimalDigits i.natAbs }

/-- A decimal with its digits around the point; `tail` stands after the point of a whole number. -/
def positional (negative : Bool) (d : Decimal) (tail : List Char) : Numeral :=
  let ds := decimalDigits d.digits
  let point : Int := ds.length + d.exponent
  if point ≤ 0 then { negative, whole := ['0'], fraction := List.replicate (-point).toNat '0' ++ ds }
  else if (ds.length : Int) ≤ point then
    { negative, whole := ds ++ List.replicate (point.toNat - ds.length) '0', fraction := tail }
  else { negative, whole := ds.take point.toNat, fraction := ds.drop point.toNat }

/-- A decimal as one digit, the other digits and a power of ten. -/
def scientific (negative : Bool) (d : Decimal) : Numeral :=
  let ds := decimalDigits d.digits
  { negative, whole := ds.take 1, fraction := ds.drop 1, exponent := some (ds.length + d.exponent - 1) }

/-- The numeral of a finite double in a data file. An exact tie between two shortest decimals goes to the even one. -/
def ofBinary64 (x : Binary64) : Numeral :=
  if x.isZero then { negative := x.isNegative, whole := ['0'], fraction := ['0'] }
  else
    let d := x.shortest .even
    let lead : Int := (decimalDigits d.digits).length + d.exponent - 1
    if -5 ≤ lead ∧ lead < 16 then positional x.isNegative d ['0'] else scientific x.isNegative d

/-- A number read from a numeral: an integer when it has neither point nor exponent and fits 64 bits, else a double. -/
inductive Reading where
  | int (i : Int)
  | float (x : Binary64)
  deriving DecidableEq

/-- Whether an integer is written as one: it fits a signed or an unsigned 64-bit word. -/
def isWord (i : Int) : Bool := -0x8000000000000000 ≤ i && i < 0x10000000000000000

/-- Append digits to a number as long as it fits an unsigned 64-bit word; the digits from the first that does not fit are left. -/
def appendDigits : Nat → List Char → Nat × List Char
  | n, [] => (n, [])
  | n, c :: cs =>
    let next := 10 * n + (c.toNat - '0'.toNat)
    if next < 0x10000000000000000 then appendDigits next cs else (n, c :: cs)

/-- The magnitude of a numeral as a double; none when it is too large. Only the leading digits that fit a word count, before the
point and then after it. A digit left over before the point counts for its place alone, and one after the point for nothing. -/
def magnitude (n : Numeral) : Option Binary64 :=
  let (whole, left) := appendDigits 0 n.whole
  let (digits, dropped) := appendDigits whole n.fraction
  let places : Int := left.length - ((n.fraction.length - dropped.length : Nat) : Int)
  (Binary64.ofInt digits).timesPowerOfTen (places + n.exponent.getD 0)

/-- The number a numeral stands for; none when it is too large for a double. Negative zero is a double. -/
def read (n : Numeral) : Option Reading :=
  let digits := digitsValue n.whole
  let i : Int := if n.negative then -(digits : Int) else digits
  if n.fraction.isEmpty ∧ n.exponent = none ∧ isWord i ∧ ¬(n.negative ∧ digits = 0) then some (.int i)
  else n.magnitude.map fun x => .float (if n.negative then x.neg else x)

end Numeral

/-- A double as messages show it: always positional, and without a point when it is whole. -/
def Binary64.display (x : Binary64) : String :=
  if x.isNaN then "NaN"
  else if !x.isFinite then (if x.isNegative then "-inf" else "inf")
  else if x.isZero then (if x.isNegative then "-0" else "0")
  else String.ofList (Numeral.positional x.isNegative (x.shortest .up) []).chars

/-- The sixteen hexadecimal digits of the bits. -/
def Binary64.hex (x : Binary64) : String :=
  let ds := Nat.toDigits 16 x.bits.toNat
  String.ofList (List.replicate (16 - ds.length) '0' ++ ds)

end PatchGraph
