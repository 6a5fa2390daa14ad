import PatchGraph.Proofs.Compile.Emission
import PatchGraph.Proofs.Program.Needs

/-!
# The slots of buses

Before any block is lowered, each bus that lives in a slot gets one of its own (`Analysis.Reserved`). Later it is given its source, which
leaves all expressions and the other slots as they are.
-/

namespace PatchGraph

/-! ## Reserving -/

/-- Reserving slots adds no expression. -/
theorem names?_reserveBusSlots (ts : List (Option ValueType)) (b : Builder) (x : Expr) :
    ((reserveBusSlots ts).run b).2.finish.names? x = b.finish.names? x := by
  induction ts generalizing b with
  | nil => rfl
  | cons t rest ih =>
    rw [run_reserveBusSlots_cons]
    split
    · refine (ih _).trans ?_
      cases x <;> rfl
    · exact ih b

/-- The slots of buses are new. -/
theorem lt_reserveBusSlots (ts : List (Option ValueType)) (b : Builder) :
    let r := (reserveBusSlots ts).run b
    b.slots.size ≤ r.2.slots.size
      ∧ ∀ (i : Nat) (s : SlotId), r.1[i]?.join = some s → b.slots.size ≤ s.index ∧ s.index < r.2.slots.size := by
  induction ts generalizing b with
  | nil => exact ⟨Nat.le_refl _, fun i s hs => nomatch hs⟩
  | cons t rest ih =>
    rw [run_reserveBusSlots_cons]
    split
    · rename_i t _
      obtain ⟨hsize, hrest⟩ := ih ((Build.reserve t).run b).2
      have hpush : ((Build.reserve t).run b).2.slots.size = b.slots.size + 1 := Array.size_push _
      rw [hpush] at hsize hrest
      dsimp only at hsize hrest ⊢
      refine ⟨by omega, fun i s hs => ?_⟩
      cases i with
      | zero =>
        obtain rfl := Option.some.inj hs
        dsimp only
        omega
      | succ i =>
        have hlt := hrest i s hs
        omega
    · obtain ⟨hsize, hrest⟩ := ih b
      refine ⟨hsize, fun i s hs => ?_⟩
      cases i with
      | zero => cases hs
      | succ i => exact hrest i s hs

/-- No two buses share a slot. -/
theorem eq_of_reserveBusSlots (ts : List (Option ValueType)) (b : Builder) {i j : Nat} {s : SlotId}
    (hi : ((reserveBusSlots ts).run b).1[i]?.join = some s) (hj : ((reserveBusSlots ts).run b).1[j]?.join = some s) : i = j := by
  induction ts generalizing b i j with
  | nil => cases hi
  | cons t rest ih =>
    rw [run_reserveBusSlots_cons] at hi hj
    split at hi
    · rename_i t ht
      rw [ht] at hj
      -- the slot of the first bus comes before those of the others
      have hlater : ∀ k : Nat,
          ((reserveBusSlots rest).run ((Build.reserve t).run b).2).1[k]?.join = some s → b.slots.size < s.index := by
        intro k hk
        have hlt := ((lt_reserveBusSlots rest _).2 k s hk).1
        have hpush : ((Build.reserve t).run b).2.slots.size = b.slots.size + 1 := Array.size_push _
        omega
      cases i with
      | zero =>
        obtain rfl := Option.some.inj hi
        cases j with
        | zero => rfl
        | succ j => exact absurd (hlater j hj) (Nat.lt_irrefl _)
      | succ i =>
        cases j with
        | zero =>
          obtain rfl := Option.some.inj hj
          exact absurd (hlater i hi) (Nat.lt_irrefl _)
        | succ j => exact congrArg (· + 1) (ih _ hi hj)
    · rename_i ht
      rw [ht] at hj
      cases i with
      | zero => cases hi
      | succ i =>
        cases j with
        | zero => cases hj
        | succ j => exact congrArg (· + 1) (ih _ hi hj)

/-- Slots were reserved for buses, each its own, and nothing else was made yet. -/
structure Analysis.Reserved (a : Analysis) (slots : BusSlots) (b : Builder) : Prop where
  typed : a.SlotsTyped slots
  injective : ∀ (i j : Nat) (s : SlotId), slots[i]?.join = some s → slots[j]?.join = some s → i = j
  isSlot : ∀ (i : Nat) (s : SlotId), slots[i]?.join = some s → s.index < b.slots.size
  empty : ∀ x, b.finish.names? x = none

theorem Analysis.reserved_reserveBusSlots (a : Analysis) (consts : Pool) :
    let r := (reserveBusSlots a.types.buses).run { consts, timeModel := some a.time.model }
    a.Reserved r.1 r.2 where
  typed := (a.typed_busSlots _).1
  injective _ _ _ hi hj := eq_of_reserveBusSlots a.types.buses _ hi hj
  isSlot i s hs := ((lt_reserveBusSlots a.types.buses _).2 i s hs).2
  empty x := by
    rw [names?_reserveBusSlots]
    cases x <;> rfl

/-! ## Giving a slot its source -/

theorem Build.names?_bind (b : Builder) (s : SlotId) (source : SlotSource) (x : Expr) :
    ((Build.bind s source).run b).2.finish.names? x = b.finish.names? x := by
  rw [Build.run_bind]
  split
  · cases x <;> rfl
  · rfl

/-- Giving a slot its source leaves the other slots as they are. -/
theorem Build.slots_bind (b : Builder) (s : SlotId) (source : SlotSource) (i : Nat) :
    ((Build.bind s source).run b).2.slots[i]?
      = if i = s.index then (b.slots[i]?).map fun slot => { slot with source } else b.slots[i]? := by
  rw [Build.run_bind]
  split
  · rename_i slot hslot
    show (b.slots.setIfInBounds s.index { slot with source })[i]? = _
    rw [Array.getElem?_setIfInBounds]
    split
    · rename_i heq
      subst heq
      have hlt := (Array.getElem?_eq_some_iff.1 hslot).1
      rw [if_pos hlt, if_pos rfl, hslot]
      rfl
    · rw [if_neg (Ne.symm ‹_›)]
  · rename_i hnone
    split
    · rename_i heq
      subst heq
      show b.slots[s.index]? = _
      rw [hnone]
      rfl
    · rfl

end PatchGraph
