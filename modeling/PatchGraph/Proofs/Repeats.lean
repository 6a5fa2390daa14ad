/-!
# Repeats in sorted lists

In a list that is sorted by a key, things with the same key stand side by side. So it is enough to compare each thing with the one before
it to leave the first thing of each key (`mem_eraseRepsBy`), and what is left ascends (`pairwise_eraseRepsBy`).
-/

namespace PatchGraph

variable {α β : Type}

section Loop

variable {same : α → α → Bool}

/-- The things that were left so far come first. -/
theorem eraseRepsBy_loop (a : α) (as done : List α) :
    List.eraseRepsBy.loop same a as done = done.reverse ++ List.eraseRepsBy same (a :: as) := by
  induction as generalizing a done with
  | nil => simp [List.eraseRepsBy, List.eraseRepsBy.loop]
  | cons b as ih =>
    simp only [List.eraseRepsBy, List.eraseRepsBy.loop]
    cases same a b with
    | true => exact ih a done
    | false =>
      simp only [ih]
      simp

/-- A thing that is the same as the one before it is left out. -/
theorem eraseRepsBy_cons_cons (a b : α) (as : List α) : List.eraseRepsBy same (a :: b :: as)
    = if same a b then List.eraseRepsBy same (a :: as) else a :: List.eraseRepsBy same (b :: as) := by
  show List.eraseRepsBy.loop same a (b :: as) [] = _
  rw [List.eraseRepsBy.loop]
  cases same a b with
  | true => exact eraseRepsBy_loop a as []
  | false => exact eraseRepsBy_loop b as [a]

/-- A thing that is left was there before. -/
theorem mem_of_mem_eraseRepsBy {x : α} {xs : List α} (h : x ∈ xs.eraseRepsBy same) : x ∈ xs := by
  cases xs with
  | nil => exact h
  | cons a as =>
    induction as generalizing a with
    | nil => exact h
    | cons b as ih =>
      rw [eraseRepsBy_cons_cons] at h
      split at h
      · exact List.mem_cons.2 ((List.mem_cons.1 (ih a h)).imp_right (List.mem_cons_of_mem _))
      · exact List.mem_cons.2 ((List.mem_cons.1 h).imp_right (ih b))

/-- Of equal things one is left. -/
theorem mem_eraseReps [DecidableEq α] {x : α} {xs : List α} : x ∈ xs.eraseReps ↔ x ∈ xs := by
  refine ⟨mem_of_mem_eraseRepsBy, fun h => ?_⟩
  cases xs with
  | nil => exact h
  | cons a as =>
    induction as generalizing a with
    | nil => exact h
    | cons b as ih =>
      rw [List.eraseReps, eraseRepsBy_cons_cons]
      split
      · rename_i heq
        obtain rfl := beq_iff_eq.1 heq
        exact ih a (by simpa using h)
      · exact List.mem_cons.2 ((List.mem_cons.1 h).imp_right (ih b))

end Loop

variable [LE β] [LT β] [DecidableEq β] [Std.IsLinearOrder β] [Std.LawfulOrderLT β] (key : α → β) {xs : List α}

/-- What is left ascends. -/
theorem pairwise_eraseRepsBy (h : xs.Pairwise fun x y => key x ≤ key y) :
    (xs.eraseRepsBy fun x y => key x == key y).Pairwise fun x y => key x < key y := by
  cases xs with
  | nil => exact .nil
  | cons a as =>
    induction as generalizing a with
    | nil => exact List.pairwise_singleton _ _
    | cons b as ih =>
      obtain ⟨hfirst, hrest⟩ := List.pairwise_cons.1 h
      rw [eraseRepsBy_cons_cons]
      split
      · exact ih a (List.pairwise_cons.2 ⟨fun x hx => hfirst x (List.mem_cons_of_mem _ hx), hrest.tail⟩)
      · rename_i hne
        have hlt : key a < key b := Std.lt_of_le_of_ne (hfirst b List.mem_cons_self) (by simpa using hne)
        refine List.pairwise_cons.2 ⟨fun x hx => ?_, ih b hrest⟩
        rcases List.mem_cons.1 (mem_of_mem_eraseRepsBy hx) with rfl | hx
        · exact hlt
        · exact Std.lt_of_lt_of_le hlt ((List.pairwise_cons.1 hrest).1 x hx)

/-- Of the things with a key, the first is left. -/
theorem mem_eraseRepsBy (h : xs.Pairwise fun x y => key x ≤ key y) {x : α} :
    x ∈ xs.eraseRepsBy (fun x y => key x == key y) ↔ (xs.find? fun y => key y = key x) = some x := by
  cases xs with
  | nil => simp [List.eraseRepsBy]
  | cons a as =>
    induction as generalizing a with
    | nil =>
      by_cases hx : key a = key x
      · simp [List.eraseRepsBy, List.eraseRepsBy.loop, hx, eq_comm]
      · have hne : x ≠ a := fun heq => hx (heq ▸ rfl)
        simp [List.eraseRepsBy, List.eraseRepsBy.loop, hx, hne]
    | cons b as ih =>
      obtain ⟨hfirst, hrest⟩ := List.pairwise_cons.1 h
      rw [eraseRepsBy_cons_cons]
      split
      · rename_i heq
        -- the second thing has the key of the first, so it is not the first of its key
        have heq : key a = key b := by simpa using heq
        rw [ih a (List.pairwise_cons.2 ⟨fun x hx => hfirst x (List.mem_cons_of_mem _ hx), hrest.tail⟩)]
        by_cases hx : key a = key x
        · simp [hx]
        · simp [hx, ← heq]
      · rename_i hne
        rw [List.mem_cons, ih b hrest]
        by_cases hx : key a = key x
        · have hfound : ((a :: b :: as).find? fun y => key y = key x) = some a := List.find?_cons_of_pos (by simpa using hx)
          rw [hfound, Option.some_inj]
          refine ⟨fun hor => ?_, fun heq => .inl heq.symm⟩
          rcases hor with rfl | hfind
          · rfl
          · -- no later thing has the key of the first
            have hlt : key a < key b := Std.lt_of_le_of_ne (hfirst b List.mem_cons_self) (by simpa using hne)
            have hle : key b ≤ key x := by
              rcases List.mem_cons.1 (List.mem_of_find?_eq_some hfind) with rfl | hmem
              · exact Std.le_refl _
              · exact (List.pairwise_cons.1 hrest).1 x hmem
            exact absurd (hx ▸ Std.lt_of_lt_of_le hlt hle) Std.lt_irrefl
        · have hother : x ≠ a := fun heq => hx (heq ▸ rfl)
          have hlater : ((a :: b :: as).find? fun y => key y = key x) = (b :: as).find? fun y => key y = key x :=
            List.find?_cons_of_neg (by simpa using hx)
          rw [hlater]
          exact or_iff_right hother

end PatchGraph
