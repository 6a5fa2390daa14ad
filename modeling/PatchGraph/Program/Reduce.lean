import PatchGraph.Program.Builder

/-!
# Reducing several values to one

Several writers of one input become one value. No value gives none, and a single value passes as it is unless the policy always
combines; otherwise one node combines them all, in order.
-/

namespace PatchGraph

/-- What becomes of a number of writers. -/
inductive CombinePlan where
  | empty
  | direct
  | node (terms : Nat)
  deriving DecidableEq

/-- What a policy makes of a number of writers. -/
def CombinePolicy.plan (p : CombinePolicy) (writers : Nat) : CombinePlan :=
  if writers = 0 then .empty
  else if writers = 1 ∧ p.when = .multi then .direct
  else .node writers

namespace Build

/-- All values under a view, unless one has none; the views before that one are built all the same. -/
def viewAll {α : Type} (view : ValueRef → Build (Option α)) : List ValueRef → Build (Option (List α))
  | [] => return some []
  | v :: rest => do
    match ← view v with
    | none => return none
    | some a =>
      match ← viewAll view rest with
      | none => return none
      | some as => return some (a :: as)

/-- Whether a mode picks one of the values. -/
def picks (mode : CombineMode) : Bool := mode = .last || mode = .error

/-- One node that combines values. Constants and handles have no such node: the last one counts, and the mode is expected to say so. -/
def combine (t : ValueType) (mode : CombineMode) (terms : List ValueRef) : Build (Option ValueRef) :=
  match t.representation with
  | .signal => do
    match ← viewAll asSignal terms with
    | none => return none
    | some ids => return some (← signalValue (← signal (.combine mode ids)) t)
  | .field => do
    match ← viewAll asField terms with
    | none => return none
    | some ids => return some (← fieldValue (← field (.combine mode ids)) t)
  | .event => do
    match ← viewAll asEvent terms with
    | none => return none
    | some ids => return some (← eventValue (← event (if mode = .sum then .merge ids else .override ids)) t)
  | .const | .handle => do
    assert (picks mode) ⟨t, mode⟩
    return terms.getLast?
  | .none => return none

/-- Reduce values of a type by a policy. -/
def reduce (t : ValueType) (p : CombinePolicy) (terms : List ValueRef) : Build (Option ValueRef) :=
  match p.plan terms.length with
  | .empty => return none
  | .direct => return terms.getLast?
  | .node _ => combine t p.mode terms

end Build

end PatchGraph
