/-!
# Double-precision numbers as their bits

A `Binary64` is the 64 bits of an IEEE 754 double. Equality is equality of bits: the two zeros differ and a NaN equals
itself, which is the notion of sameness constants are shared by. Arithmetic goes through the machine's `Float`. A NaN operand
is passed on unchanged, the first one first, and an operation that has no value gives the NaN with the sign bit set.
-/

namespace PatchGraph

/-- A double-precision number, held as its bits. -/
structure Binary64 where
  bits : UInt64
  deriving DecidableEq, Inhabited

namespace Binary64

/-- The exponent field, 0 for zeros and subnormal numbers and 2047 for NaN and the infinities. -/
def exponentField (x : Binary64) : Nat := ((x.bits >>> 52) &&& 0x7ff).toNat

/-- The 52 stored bits of the significand. -/
def fractionField (x : Binary64) : Nat := (x.bits &&& 0xfffffffffffff).toNat

/-- Whether the sign bit is set. -/
def isNegative (x : Binary64) : Bool := x.bits >>> 63 == 1

/-- Neither NaN nor an infinity. -/
def isFinite (x : Binary64) : Bool := x.exponentField < 2047

/-- Not a number. -/
def isNaN (x : Binary64) : Bool := x.exponentField == 2047 && x.fractionField != 0

/-- One of the two zeros. -/
def isZero (x : Binary64) : Bool := x.exponentField == 0 && x.fractionField == 0

/-- The leading bit of a significand, which is not stored: `2 ^ 52`. -/
def leadingBit : Nat := 0x10000000000000

/-- A finite number has magnitude `x.significand * 2 ^ x.scale`. -/
def significand (x : Binary64) : Nat :=
  if x.exponentField = 0 then x.fractionField else leadingBit + x.fractionField

/-- The power of two that goes with `significand`. -/
def scale (x : Binary64) : Int :=
  if x.exponentField = 0 then -1074 else (x.exponentField : Int) - 1075

/-- The NaN of an operation without a value. -/
def invalid : Binary64 := ⟨0xfff8000000000000⟩

/-- Positive zero. -/
def zero : Binary64 := ⟨0⟩

/-- One. -/
def one : Binary64 := ⟨0x3ff0000000000000⟩

/-- The number as the machine computes with it. -/
def toFloat (x : Binary64) : Float := Float.ofBits x.bits

/-- The bits of a computed number. Every NaN the machine computes is the invalid one. -/
def ofFloat (x : Float) : Binary64 := if x.isNaN then invalid else ⟨x.toBits⟩

/-- Set the sign bit from a flag. -/
def withSign (negative : Bool) (magnitude : Nat) : Binary64 :=
  ⟨(if negative then 0x8000000000000000 else 0) ||| magnitude.toUInt64⟩

/-- A one-place operation of the machine, passing a NaN on. -/
def lift1 (op : Float → Float) (a : Binary64) : Binary64 :=
  if a.isNaN then a else ofFloat (op a.toFloat)

/-- A two-place operation of the machine, passing a NaN on. -/
def lift2 (op : Float → Float → Float) (a b : Binary64) : Binary64 :=
  if a.isNaN then a else if b.isNaN then b else ofFloat (op a.toFloat b.toFloat)

instance : Add Binary64 := ⟨lift2 (· + ·)⟩
instance : Sub Binary64 := ⟨lift2 (· - ·)⟩
instance : Mul Binary64 := ⟨lift2 (· * ·)⟩
instance : Div Binary64 := ⟨lift2 (· / ·)⟩

/-- The numeric order of two numbers; nothing is below or above a NaN. -/
def lt (a b : Binary64) : Bool := a.toFloat < b.toFloat

/-- Flip the sign bit. -/
def neg (a : Binary64) : Binary64 := ⟨a.bits ^^^ 0x8000000000000000⟩

/-- Clear the sign bit. -/
def abs (a : Binary64) : Binary64 := ⟨a.bits &&& 0x7fffffffffffffff⟩

/-- The smaller of two numbers, the second if neither is below the other; a NaN loses against a number, and of two NaNs the first
stays. -/
def min (a b : Binary64) : Binary64 := if a.lt b || b.isNaN then a else b

/-- The larger of two numbers, the second if neither is above the other; a NaN loses against a number, and of two NaNs the first
stays. -/
def max (a b : Binary64) : Binary64 := if b.lt a || b.isNaN then a else b

/-- Sine of an angle in radians. -/
def sin : Binary64 → Binary64 := lift1 Float.sin

/-- Cosine of an angle in radians. -/
def cos : Binary64 → Binary64 := lift1 Float.cos

/-- The largest integer that is not above the number. -/
def floor : Binary64 → Binary64 := lift1 Float.floor

/-- The distance to the integer below. -/
def fract (a : Binary64) : Binary64 := a - a.floor

/-- The nearest number of the closed unit interval; a NaN and negative zero stay as they are. -/
def clamp01 (a : Binary64) : Binary64 :=
  if a.lt zero then zero else if one.lt a then one else a

/-- One minus the number. -/
def invert (a : Binary64) : Binary64 := one - a

/-- The integer a finite number equals, if it equals one. -/
def toInt? (a : Binary64) : Option Int :=
  if !a.isFinite then none
  else
    let whole : Option Nat :=
      if 0 ≤ a.scale then some (a.significand <<< a.scale.toNat)
      else
        let d := 1 <<< (-a.scale).toNat
        if a.significand % d = 0 then some (a.significand / d) else none
    whole.map fun n => if a.isNegative then -(n : Int) else n

end Binary64

end PatchGraph
