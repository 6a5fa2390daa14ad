import PatchGraph.Number.Binary64

/-!
# Rounding exact ratios to doubles

A ratio of two natural numbers goes to the nearest double, a half to the even neighbour. Integers widen to doubles this way, and
so do the products and quotients of two doubles. A decimal is read in such steps: its digits as a double, then a product with, or
a quotient by, the double nearest to a power of ten. Since each step rounds, a decimal with many digits may come out beside the
double nearest to it.
-/

namespace PatchGraph

/-- The nearest natural number to `num / den`, a half going to the even neighbour. -/
def roundHalfEven (num den : Nat) : Nat :=
  let q := num / den
  let r := num % den
  if 2 * r < den then q else if den < 2 * r then q + 1 else if q % 2 = 0 then q else q + 1

/-- The largest `e` with `2 ^ e ≤ num / den`, for positive `num` and `den`. -/
def floorLog2 (num den : Nat) : Int :=
  let b : Int := (num.log2 : Int) - (den.log2 : Int)
  let reached : Bool := if 0 ≤ b then den <<< b.toNat ≤ num else den ≤ num <<< (-b).toNat
  if reached then b else b - 1

namespace Binary64

/-- The double nearest to `num / den` in magnitude, with the given sign; none when it is too large to be finite. -/
def ofRatio (negative : Bool) (num den : Nat) : Option Binary64 :=
  if num = 0 then some (withSign negative 0)
  else
    let q : Int := Max.max (floorLog2 num den - 52) (-1074)
    let m := if 0 ≤ q then roundHalfEven num (den <<< q.toNat) else roundHalfEven (num <<< (-q).toNat) den
    let magnitude := if m < leadingBit then m else (q + 1075).toNat * leadingBit + (m - leadingBit)
    if 0x7ff0000000000000 ≤ magnitude then none else some (withSign negative magnitude)

/-- The double nearest to an integer of at most 64 bits. -/
def ofInt (i : Int) : Binary64 := (ofRatio (i < 0) i.natAbs 1).getD invalid

/-! ## Scaling by powers of ten -/

/-- The double nearest to the product of the magnitudes of two finite doubles; none when it is too large to be finite. -/
def magnitudeProduct (a b : Binary64) : Option Binary64 :=
  let e := a.scale + b.scale
  ofRatio false ((a.significand * b.significand) <<< e.toNat) (1 <<< (-e).toNat)

/-- The double nearest to the quotient of the magnitudes of two finite doubles, the second not zero; none when it is too large to be
finite. -/
def magnitudeQuotient (a b : Binary64) : Option Binary64 :=
  let e := a.scale - b.scale
  ofRatio false (a.significand <<< e.toNat) (b.significand <<< (-e).toNat)

/-- The largest power of ten that is a finite double. -/
def maxPowerOfTen : Nat := 308

/-- The double nearest to a power of ten that is not above the largest. -/
def powerOfTen (k : Nat) : Binary64 := (ofRatio false (Nat.pow 10 k) 1).getD invalid

/-- A whole number below `2 ^ 64`, held as a double, times a power of ten; none when it is too large to be finite. There is one step
for a power that is a double itself or whose inverse is one. A smaller power takes two steps, and one so small that the second
step would not suffice leaves nothing. -/
def timesPowerOfTen (x : Binary64) (exponent : Int) : Option Binary64 :=
  if x.isZero then some x
  else if 0 ≤ exponent then
    if exponent ≤ maxPowerOfTen then x.magnitudeProduct (powerOfTen exponent.toNat) else none
  else
    let k := (-exponent).toNat
    if k ≤ maxPowerOfTen then x.magnitudeQuotient (powerOfTen k)
    else if k ≤ 2 * maxPowerOfTen then do
      (← x.magnitudeQuotient (powerOfTen maxPowerOfTen)).magnitudeQuotient (powerOfTen (k - maxPowerOfTen))
    else some zero

end Binary64

end PatchGraph
