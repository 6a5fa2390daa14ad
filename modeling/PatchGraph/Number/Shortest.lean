import PatchGraph.Number.Binary64

/-!
# The fewest decimal digits that read back

A finite positive double is written with the fewest decimal digits that still round to it. For each count of digits the two
neighbours of the value on that decimal grid are tested against the interval of reals that round to the value; the first grid
with a hit wins and, of two hits, the nearer one. An exact tie between the two is left to the format.
-/

namespace PatchGraph

/-- Where an exact tie between two equally short decimals goes. -/
inductive Tie where
  | even | up
  deriving DecidableEq

/-- A positive decimal: the digits as a number, times a power of ten. -/
structure Decimal where
  digits : Nat
  exponent : Int
  deriving DecidableEq, Inhabited

namespace Shortest

/-- The number `a * 2 ^ p * 10 ^ k` as a numerator and a denominator. -/
def scaled (a : Nat) (p k : Int) : Nat × Nat :=
  let num := a * Nat.pow 10 k.toNat <<< p.toNat
  let den := Nat.pow 10 (-k).toNat <<< (-p).toNat
  (num, den)

/-- The interval of reals that round to `m * 2 ^ q`, as `(low, high)` in units of `2 ^ (q - 2)`. Below a power of two the spacing
halves, so the lower half is a quarter there. -/
def bounds (m : Nat) (q : Int) : Nat × Nat :=
  (if m = Binary64.leadingBit ∧ -1074 < q then 4 * m - 1 else 4 * m - 2, 4 * m + 2)

/-- Whether the decimal `d * 10 ^ k` rounds to `m * 2 ^ q`; the ends of the interval do when `m` is even. -/
def hits (m : Nat) (q : Int) (d : Nat) (k : Int) : Bool :=
  let (low, high) := bounds m q
  let (num, den) := scaled d (2 - q) k
  if m % 2 = 0 then low * den ≤ num && num ≤ high * den else low * den < num && num < high * den

/-- The decimal with unit `10 ^ k` that is in the interval and nearest to `m * 2 ^ q`. -/
def onGrid (tie : Tie) (m : Nat) (q k : Int) : Option Nat :=
  let (num, den) := scaled m q (-k)
  let d := num / den
  let twice := 2 * num
  let middle := (2 * d + 1) * den
  match hits m q d k && d != 0, hits m q (d + 1) k with
  | false, false => none
  | true, false => some d
  | false, true => some (d + 1)
  | true, true =>
    if twice < middle then some d
    else if middle < twice then some (d + 1)
    else match tie with
      | .even => some (if d % 2 = 0 then d else d + 1)
      | .up => some (d + 1)

/-- Search the grids from unit `10 ^ k` downwards. -/
def search (tie : Tie) (m : Nat) (q : Int) : Nat → Int → Decimal
  | 0, k => ⟨(scaled m q (-k)).1 / (scaled m q (-k)).2, k⟩
  | n + 1, k =>
    match onGrid tie m q k with
    | some d => ⟨d, k⟩
    | none => search tie m q n (k - 1)

/-- An exponent of ten whose power is above `m * 2 ^ q`, and by less than a factor of a thousand. -/
def topExponent (m : Nat) (q : Int) : Int :=
  let b : Int := (m.log2 : Int) + q
  (b * 30103) / 100000 + 1

end Shortest

/-- The shortest decimal that rounds to the magnitude of a finite non-zero double. Seventeen digits always suffice, and the search
starts at most three grids above the leading digit. -/
def Binary64.shortest (tie : Tie) (x : Binary64) : Decimal :=
  Shortest.search tie x.significand x.scale 21 (Shortest.topExponent x.significand x.scale)

end PatchGraph
