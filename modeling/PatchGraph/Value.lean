import PatchGraph.Json.Decode

/-!
# Constant values

The values that parameters, defaults and constants hold. Equality distinguishes the kinds, so the integer one and the double one
differ, and compares doubles by their bits. The key of a value says this in plain data, by which constants are looked up.
-/

namespace PatchGraph

/-- A constant value. -/
inductive Value where
  | bool (b : Bool)
  | int (i : Int)
  | float (x : Binary64)
  | vector (xs : List Binary64)
  | text (s : String)
  deriving DecidableEq, Inhabited

namespace Value

/-- What tells constants apart: the kind of a value, and the bits of its doubles. -/
inductive Key where
  | bool (b : Bool)
  | int (i : Int)
  | float (bits : UInt64)
  | vector (bits : List UInt64)
  | text (s : String)
  deriving DecidableEq

/-- The key of a value. -/
def key : Value → Key
  | .bool b => .bool b
  | .int i => .int i
  | .float x => .float x.bits
  | .vector xs => .vector (xs.map (·.bits))
  | .text s => .text s

/-- Two values of one key are the same value. -/
theorem key_injective {v w : Value} (h : v.key = w.key) : v = w := by
  have hbits : ∀ {x y : Binary64}, x.bits = y.bits → x = y := fun {x y} h => congrArg Binary64.mk h
  cases v <;> cases w <;> simp only [key, reduceCtorEq, Key.bool.injEq, Key.int.injEq, Key.float.injEq, Key.vector.injEq,
    Key.text.injEq] at h
  case float => rw [hbits h]
  case vector => rw [List.map_inj_right fun _ _ => hbits] at h; rw [h]
  all_goals rw [h]

/-- The number a value is; integers widen to doubles. -/
def number? : Value → Option Binary64
  | .int i => some (Binary64.ofInt i)
  | .float x => some x
  | _ => none

/-- The text a value is. -/
def text? : Value → Option String
  | .text s => some s
  | _ => none

/-- A value as messages show it. -/
def display : Value → String
  | .bool b => if b then "true" else "false"
  | .int i => String.ofList (Numeral.ofInt i).chars
  | .float x => x.display
  | .vector xs => "[" ++ String.intercalate ", " (xs.map Binary64.display) ++ "]"
  | .text s => Text.quoted s

/-- A value in a data file. -/
def toJson : Value → Json
  | .bool b => .bool b
  | .int i => .int i
  | .float x => .float x
  | .vector xs => .arr (xs.map Json.float)
  | .text s => .str s

/-- The problem with JSON that is no value. -/
def noValue : Json.Problem := .mismatch (.noVariant "Value")

/-- The doubles of a list of numbers. -/
def numbers? : List Json.Source → Option (List Binary64)
  | [] => some []
  | .number n :: rest =>
    match n.read with
    | some (.int i) => (numbers? rest).map (Binary64.ofInt i :: ·)
    | some (.float x) => (numbers? rest).map (x :: ·)
    | none => none
  | _ :: _ => none

/-- The value that well-formed JSON is: a truth value, an integer if it fits 63 bits and a sign, another number, a list of numbers
or a string. -/
def ofSource? : Json.Source → Option Value
  | .bool b => some (.bool b)
  | .number n => match n.read with
    | some (.int i) => some (if i < 0x8000000000000000 then .int i else .float (Binary64.ofInt i))
    | some (.float x) => some (.float x)
    | none => none
  | .string (.text s) => some (.text s)
  | .array items .closed => (numbers? items).map .vector
  | _ => none

/-- Decode a value that stands inside `depth` lists and objects. It is held as a whole first, so that faults in its text come before
anything it says. -/
def decode (depth : Nat) (s : Json.Source) : Json.Decoded Value := do
  Json.check (s.holdingFault depth)
  match ofSource? s with
  | some v => .ok v
  | none => .error noValue

end Value

end PatchGraph
