import Mathlib.Logic.Relation
import PatchGraph.Graph.Digraph

/-!
# Depth-first search finds components

The state of a search is `Sound`: its stack falls into layers, one for each node whose successors are being looked at, and the
components it has completed are classes of nodes that reach each other. One step keeps this (`Sound.step`), so a whole search does
(`search_sound`).

A `Layer` is a node with a frame and the nodes above it on the stack that were left since. What was looked at from there leads to
nodes that were met, and to none in the stack below that has a smaller number than the frame knows of. So if that number is the
node's own, no edge leads from the layer to the stack below, and the layer is a component.
-/

namespace PatchGraph.Digraph

open Relation

/-- A path along edges leads from one node to another; it may be empty. -/
def Reaches (g : Digraph) : Nat → Nat → Prop := ReflTransGen fun u v => v ∈ g.successors u

/-- Two nodes reach each other. -/
def Connected (g : Digraph) (u v : Nat) : Prop := g.Reaches u v ∧ g.Reaches v u

/-- Every edge leads to a node of the graph. -/
def Closed (g : Digraph) : Prop := ∀ u, ∀ v ∈ g.successors u, v < g.size

/-! ## Sorting nodes -/

/-- To insert a node loses none and adds no other. -/
theorem perm_insertNode (v : Nat) (vs : List Nat) : (insertNode v vs).Perm (v :: vs) := by
  induction vs with
  | nil => exact .refl _
  | cons w rest ih =>
    rw [insertNode]
    split
    · exact .refl _
    · exact (ih.cons w).trans (.swap v w rest)

/-- Sorting nodes loses none of them and adds none. -/
theorem perm_sortNodes (vs : List Nat) : (sortNodes vs).Perm vs := by
  induction vs with
  | nil => exact .refl _
  | cons v rest ih => exact (perm_insertNode v _).trans (ih.cons v)

/-- A node is inserted before the first that is not less. -/
theorem pairwise_insertNode {v : Nat} {vs : List Nat} (h : vs.Pairwise (· ≤ ·)) : (insertNode v vs).Pairwise (· ≤ ·) := by
  induction vs with
  | nil => exact List.pairwise_singleton _ _
  | cons w rest ih =>
    obtain ⟨hfirst, hrest⟩ := List.pairwise_cons.1 h
    rw [insertNode]
    split
    · rename_i hle
      refine List.pairwise_cons.2 ⟨fun x hx => ?_, h⟩
      rcases List.mem_cons.1 hx with rfl | hx
      · exact hle
      · exact Nat.le_trans hle (hfirst x hx)
    · rename_i hlt
      refine List.pairwise_cons.2 ⟨fun x hx => ?_, ih hrest⟩
      rcases List.mem_cons.1 ((perm_insertNode v rest).mem_iff.1 hx) with rfl | hx
      · omega
      · exact hfirst x hx

/-- Sorted nodes ascend. -/
theorem pairwise_sortNodes (vs : List Nat) : (sortNodes vs).Pairwise (· ≤ ·) := by
  induction vs with
  | nil => exact .nil
  | cons v rest ih => exact pairwise_insertNode ih

/-- Distinct nodes are in strictly ascending order once they are sorted. -/
theorem ascending_sortNodes {vs : List Nat} (h : vs.Nodup) : (sortNodes vs).Pairwise (· < ·) := by
  have hne : (sortNodes vs).Nodup := (perm_sortNodes vs).nodup_iff.2 h
  exact ((pairwise_sortNodes vs).and hne).imp fun hab => Nat.lt_of_le_of_ne hab.1 hab.2

/-! ## Paths -/

variable {g : Digraph}

theorem Reaches.refl (u : Nat) : g.Reaches u u := ReflTransGen.refl

theorem Reaches.trans {u v w : Nat} (h : g.Reaches u v) (h' : g.Reaches v w) : g.Reaches u w := ReflTransGen.trans h h'

/-- An edge is a path. -/
theorem Reaches.edge {u v : Nat} (h : v ∈ g.successors u) : g.Reaches u v := ReflTransGen.single h

theorem Connected.refl (u : Nat) : g.Connected u u := ⟨.refl u, .refl u⟩

theorem Connected.symm {u v : Nat} (h : g.Connected u v) : g.Connected v u := ⟨h.2, h.1⟩

/-- To reach each other is transitive. -/
theorem Connected.trans {u v w : Nat} (h : g.Connected u v) (h' : g.Connected v w) : g.Connected u w :=
  ⟨h.1.trans h'.1, h'.2.trans h.2⟩

/-- A set of nodes that edges never leave holds all that its nodes reach. -/
theorem Reaches.mem_of_closed {K : List Nat} (hK : ∀ u ∈ K, ∀ v ∈ g.successors u, v ∈ K) {u v : Nat} (h : g.Reaches u v)
    (hu : u ∈ K) : v ∈ K := by
  induction h with
  | refl => exact hu
  | tail _ hstep ih => exact hK _ ih _ hstep

/-! ## Complete components -/

/-- A list of nodes is a strongly connected component, in ascending order. -/
structure IsComponent (g : Digraph) (c : List Nat) : Prop where
  ne_nil : c ≠ []
  ascending : c.Pairwise (· < ·)
  mem_iff : ∀ u ∈ c, ∀ v, v ∈ c ↔ g.Connected u v

/-- Components, the last completed one first: each is one, and its edges lead to itself or to those completed before. -/
inductive Complete (g : Digraph) : List (List Nat) → Prop where
  | nil : Complete g []
  | cons {c : List Nat} {cs : List (List Nat)} :
      IsComponent g c → (∀ u ∈ c, ∀ v ∈ g.successors u, v ∈ c ∨ v ∈ cs.flatten) → Complete g cs → Complete g (c :: cs)

/-- Each complete component is one. -/
theorem Complete.isComponent {cs : List (List Nat)} (h : Complete g cs) : ∀ c ∈ cs, IsComponent g c := by
  induction h with
  | nil => intro c hc; exact absurd hc List.not_mem_nil
  | cons hc _ _ ih =>
    intro d hd
    rcases List.mem_cons.1 hd with rfl | hd
    · exact hc
    · exact ih d hd

/-- No edge leaves the complete components. -/
theorem Complete.closed {cs : List (List Nat)} (h : Complete g cs) : ∀ u ∈ cs.flatten, ∀ v ∈ g.successors u, v ∈ cs.flatten := by
  induction h with
  | nil => intro u hu; exact absurd hu List.not_mem_nil
  | cons _ hout _ ih =>
    intro u hu v hv
    rw [List.flatten_cons, List.mem_append] at hu ⊢
    rcases hu with hu | hu
    · exact hout u hu v hv
    · exact Or.inr (ih u hu v hv)

namespace Search

/-! ## Layers of the stack -/

/-- A successor that was looked at: it was met, and if it is in the stack below, its number was noted. -/
def Covers (s : Search) (low : Nat) (below : List Nat) (v : Nat) : Prop :=
  s.isNew v = false ∧ (v ∈ below → low ≤ s.number v)

/-- A smaller number covers more, and so does a smaller stack below. -/
theorem Covers.mono {s : Search} {low low' : Nat} {below below' : List Nat} {v : Nat} (h : s.Covers low below v)
    (hlow : low' ≤ low) (hbelow : ∀ x ∈ below', x ∈ below) : s.Covers low' below' v :=
  ⟨h.1, fun hv => Nat.le_trans hlow (h.2 (hbelow v hv))⟩

/-- A frame with the nodes above its node on the stack, on top of the stack below. -/
structure Layer (g : Digraph) (s : Search) (f : Frame) (above below : List Nat) : Prop where
  reaches : ∀ x ∈ above, g.Reaches x f.node
  low_le : f.low ≤ s.number f.node
  low_reached : ∃ b ∈ f.node :: below, s.number b = f.low ∧ g.Reaches f.node b
  rest_sub : ∀ v ∈ f.rest, v ∈ g.successors f.node
  seen : ∀ v ∈ g.successors f.node, v ∈ f.rest ∨ s.Covers f.low below v
  left : ∀ x ∈ above, ∀ v ∈ g.successors x, s.Covers f.low below v

/-- The stack is a pile of layers, one for each frame. -/
inductive Layered (g : Digraph) (s : Search) : List Frame → List Nat → Prop where
  | nil : Layered g s [] []
  | cons {f : Frame} {fs : List Frame} {above below : List Nat} :
      Layer g s f above below → Layered g s fs below → Layered g s (f :: fs) (above ++ f.node :: below)

/-- The stack in the order of numbers: a node above another has a larger number and is reached from it. -/
def Piled (g : Digraph) (s : Search) (stack : List Nat) : Prop :=
  stack.Pairwise fun a b => s.number b < s.number a ∧ g.Reaches b a

/-- What holds of a search between any two of its steps. -/
structure Sound (g : Digraph) (s : Search) : Prop where
  size_eq : s.numbers.size = g.size
  number_lt : ∀ u ∈ s.stack, s.number u < s.next
  mem_iff : ∀ u, u ∈ s.stack ++ s.components.flatten ↔ u < g.size ∧ s.isNew u = false
  nodup : (s.stack ++ s.components.flatten).Nodup
  piled : Piled g s s.stack
  layered : Layered g s s.frames s.stack
  complete : Complete g s.components

/-- The parts of a piled stack around one of its nodes. -/
theorem Piled.split {s : Search} {above below : List Nat} {u : Nat} (h : Piled g s (above ++ u :: below)) :
    (∀ x ∈ above, s.number u < s.number x ∧ g.Reaches u x) ∧ (∀ x ∈ below, s.number x < s.number u ∧ g.Reaches x u) ∧
      Piled g s below := by
  obtain ⟨_, hbelow, hcross⟩ := List.pairwise_append.1 h
  obtain ⟨hu, hrest⟩ := List.pairwise_cons.1 hbelow
  exact ⟨fun x hx => hcross x hx u List.mem_cons_self, hu, hrest⟩

/-- A stacked node with a smaller number than another lies below it. -/
theorem Piled.mem_below {s : Search} {above below : List Nat} {u b : Nat} (h : Piled g s (above ++ u :: below))
    (hb : b ∈ above ++ u :: below) (hlt : s.number b < s.number u) : b ∈ below := by
  obtain ⟨habove, _, _⟩ := h.split
  rcases List.mem_append.1 hb with hb | hb
  · exact absurd (habove b hb).1 (Nat.lt_asymm hlt)
  · rcases List.mem_cons.1 hb with rfl | hb
    · exact absurd hlt (Nat.lt_irrefl _)
    · exact hb

/-- The innermost frame has the topmost layer. -/
theorem Layered.exists_top {s : Search} {f : Frame} {fs : List Frame} {stack : List Nat} (h : Layered g s (f :: fs) stack) :
    ∃ above below, stack = above ++ f.node :: below ∧ Layer g s f above below ∧ Layered g s fs below := by
  cases h with
  | cons hl hfs => exact ⟨_, _, rfl, hl, hfs⟩

/-- Every stacked node reaches the innermost node with a frame. -/
theorem Layered.reaches_top {s : Search} {f : Frame} {fs : List Frame} {stack : List Nat}
    (h : Layered g s (f :: fs) stack) (hp : Piled g s stack) : ∀ x ∈ stack, g.Reaches x f.node := by
  obtain ⟨above, below, rfl, hl, -⟩ := h.exists_top
  intro x hx
  rcases List.mem_append.1 hx with hx | hx
  · exact hl.reaches x hx
  · rcases List.mem_cons.1 hx with rfl | hx
    · exact .refl _
    · exact (hp.split.2.1 x hx).2

/-- A layer depends on the numbers in its part of the stack, and on which nodes were met. -/
theorem Layer.congr {s s' : Search} {f : Frame} {above below : List Nat} (h : Layer g s f above below)
    (hnum : ∀ u ∈ f.node :: below, s'.number u = s.number u) (hnew : ∀ v, s.isNew v = false → s'.isNew v = false) :
    Layer g s' f above below := by
  have hcov : ∀ v, s.Covers f.low below v → s'.Covers f.low below v := fun v hv =>
    ⟨hnew v hv.1, fun hb => by rw [hnum v (List.mem_cons_of_mem _ hb)]; exact hv.2 hb⟩
  obtain ⟨b, hb, hlow, hreach⟩ := h.low_reached
  refine ⟨h.reaches, ?_, ⟨b, hb, ?_, hreach⟩, h.rest_sub, fun v hv => (h.seen v hv).imp_right (hcov v),
    fun x hx v hv => hcov v (h.left x hx v hv)⟩
  · rw [hnum f.node List.mem_cons_self]
    exact h.low_le
  · rw [hnum b hb]
    exact hlow

/-- Layers stay as they are if the stacked nodes keep their numbers and no node gets new again. -/
theorem Layered.congr {s s' : Search} {fs : List Frame} {stack : List Nat} (h : Layered g s fs stack)
    (hnum : ∀ u ∈ stack, s'.number u = s.number u) (hnew : ∀ v, s.isNew v = false → s'.isNew v = false) :
    Layered g s' fs stack := by
  induction h with
  | nil => exact .nil
  | cons hl _ ih =>
    refine .cons (hl.congr (fun u hu => hnum u (List.mem_append_right _ hu)) hnew) (ih fun u hu => hnum u ?_)
    exact List.mem_append_right _ (List.mem_cons_of_mem _ hu)

/-- The pile stays as it is if the stacked nodes keep their numbers. -/
theorem Piled.congr {s s' : Search} {stack : List Nat} (h : Piled g s stack)
    (hnum : ∀ u ∈ stack, s'.number u = s.number u) : Piled g s' stack :=
  h.imp_of_mem fun ha hb hab => ⟨by rw [hnum _ ha, hnum _ hb]; exact hab.1, hab.2⟩

/-- Frames matter only as the layers of the stack. -/
theorem Sound.withFrames {s : Search} (h : Sound g s) {fs : List Frame} (hfs : Layered g s fs s.stack) :
    Sound g { s with frames := fs } :=
  ⟨h.size_eq, h.number_lt, h.mem_iff, h.nodup, h.piled, hfs.congr (fun _ _ => rfl) fun _ hv => hv, h.complete⟩

/-! ## Meeting a node -/

/-- A node gets the next number when it is met. -/
theorem number_enter_self {s : Search} {w : Nat} (hw : s.isNew w = true) : (enter g s w).number w = s.next := by
  simp only [isNew, decide_eq_true_eq, Array.getElem?_eq_some_iff] at hw
  simp [number, enter, hw.1]

/-- Other nodes keep their numbers. -/
theorem number_enter_of_ne {s : Search} {u w : Nat} (h : u ≠ w) : (enter g s w).number u = s.number u := by
  simp [number, enter, Array.getElem?_setIfInBounds_ne (Ne.symm h)]

/-- What was met stays met. -/
theorem isNew_enter_of_met {s : Search} {w : Nat} (hw : s.isNew w = true) (v : Nat) (hv : s.isNew v = false) :
    (enter g s w).isNew v = false := by
  rw [isNew_enter v hw, hv, Bool.false_and]

/-- A new node is not on the stack. -/
theorem Sound.ne_of_isNew {s : Search} (h : Sound g s) {u w : Nat} (hw : s.isNew w = true) (hu : u ∈ s.stack) : u ≠ w := by
  rintro rfl
  have hmet := ((h.mem_iff u).1 (List.mem_append_left _ hu)).2
  rw [hw] at hmet
  cases hmet

/-- A new node is a node of the graph. -/
theorem Sound.lt_of_isNew {s : Search} (h : Sound g s) {w : Nat} (hw : s.isNew w = true) : w < g.size := by
  simp only [isNew, decide_eq_true_eq, Array.getElem?_eq_some_iff] at hw
  rw [← h.size_eq]
  exact hw.1

/-- A node that is met forms a layer of its own. -/
theorem layer_enter {s : Search} {w : Nat} (hw : s.isNew w = true) (below : List Nat) :
    Layer g (enter g s w) ⟨w, s.next, g.successors w⟩ [] below := by
  have hnum : (enter g s w).number w = s.next := number_enter_self hw
  exact ⟨fun x hx => absurd hx List.not_mem_nil, Nat.le_of_eq hnum.symm, ⟨w, List.mem_cons_self, hnum, .refl w⟩,
    fun v hv => hv, fun v hv => Or.inl hv, fun x hx => absurd hx List.not_mem_nil⟩

/-- A search stays sound when it meets a node that all of its stack reaches. The frames may have changed since the last step, as long
as they still are frames of the stack when the node counts as met. -/
theorem Sound.enter {s : Search} (h : Sound g s) {w : Nat} (hw : s.isNew w = true) (hreach : ∀ x ∈ s.stack, g.Reaches x w)
    {fs : List Frame} (hfs : Layered g (enter g s w) fs s.stack) : Sound g (enter g { s with frames := fs } w) := by
  have hnum : ∀ u ∈ s.stack, (Search.enter g s w).number u = s.number u := fun u hu =>
    number_enter_of_ne (h.ne_of_isNew hw hu)
  have hlt : ∀ u ∈ s.stack, (Search.enter g s w).number u < s.next := by
    intro u hu
    rw [hnum u hu]
    exact h.number_lt u hu
  refine ⟨?_, ?_, ?_, ?_, ?_, ?_, h.complete⟩
  · simpa [Search.enter] using h.size_eq
  · intro u hu
    rcases List.mem_cons.1 hu with rfl | hu
    · exact Nat.lt_succ_of_le (Nat.le_of_eq (number_enter_self hw))
    · exact Nat.lt_succ_of_lt (hlt u hu)
  · intro u
    have hnew : (Search.enter g { s with frames := fs } w).isNew u = (s.isNew u && u != w) := isNew_enter u hw
    have hmem := h.mem_iff u
    have hwlt := h.lt_of_isNew hw
    rw [hnew]
    by_cases huw : u = w
    · subst huw
      simp [Search.enter, hwlt]
    · simpa [Search.enter, huw] using hmem
  · refine List.nodup_cons.2 ⟨fun hmem => ?_, h.nodup⟩
    have hmet := ((h.mem_iff w).1 hmem).2
    rw [hw] at hmet
    cases hmet
  · refine List.pairwise_cons.2 ⟨fun u hu => ⟨?_, hreach u hu⟩, h.piled.congr hnum⟩
    rw [show (Search.enter g { s with frames := fs } w).number w = s.next from number_enter_self hw]
    exact hlt u hu
  · exact Layered.cons (layer_enter (s := { s with frames := fs }) hw s.stack) (hfs.congr (fun _ _ => rfl) fun _ hv => hv)

/-! ## Looking at a successor -/

/-- A successor that has just been met is taken into account: it is not in the stack below. -/
theorem Layer.advance {s : Search} {f : Frame} {above below : List Nat} {w : Nat} {rest : List Nat}
    (h : Layer g s f above below) (hf : f.rest = w :: rest) (hw : s.isNew w = false) (hbelow : w ∉ below) :
    Layer g s { f with rest } above below := by
  refine ⟨h.reaches, h.low_le, h.low_reached, fun v hv => h.rest_sub v (hf ▸ List.mem_cons_of_mem _ hv), ?_, h.left⟩
  intro v hv
  rcases h.seen v hv with hr | hc
  · rw [hf] at hr
    rcases List.mem_cons.1 hr with rfl | hr
    · exact Or.inr ⟨hw, fun hb => absurd hb hbelow⟩
    · exact Or.inl hr
  · exact Or.inr hc

/-- Meeting a new successor of the innermost node keeps a search sound. -/
theorem Sound.meet {s : Search} (h : Sound g s) {f : Frame} {callers : List Frame} (hframes : s.frames = f :: callers)
    {w : Nat} {rest : List Nat} (hf : f.rest = w :: rest) (hw : s.isNew w = true) :
    Sound g (Search.enter g { s with frames := { f with rest } :: callers } w) := by
  have hlayered := h.layered
  rw [hframes] at hlayered
  have hne : ∀ u ∈ s.stack, u ≠ w := fun u hu => h.ne_of_isNew hw hu
  have hmet : Layered g (Search.enter g s w) (f :: callers) s.stack :=
    hlayered.congr (fun u hu => number_enter_of_ne (hne u hu)) (isNew_enter_of_met hw)
  obtain ⟨above, below, hstack, hl, hcallers⟩ := hmet.exists_top
  have hedge : w ∈ g.successors f.node := hl.rest_sub w (hf ▸ List.mem_cons_self)
  refine h.enter hw (fun x hx => (hlayered.reaches_top h.piled x hx).trans (.edge hedge)) ?_
  rw [hstack] at hne ⊢
  refine .cons (hl.advance hf ?_ fun hb => hne w ?_ rfl) hcallers
  · rw [isNew_enter w hw]
    simp
  · exact List.mem_append_right _ (List.mem_cons_of_mem _ hb)

/-- Looking at a successor that was met takes it into account. -/
theorem Layer.skip {s : Search} {f : Frame} {above below : List Nat} {w : Nat} {rest : List Nat}
    (h : Layer g s f above below) (hp : Piled g s (above ++ f.node :: below)) (hstack : s.stack = above ++ f.node :: below)
    (hf : f.rest = w :: rest) (hw : s.isNew w = false) :
    Layer g s { f with rest, low := s.lowOver f.low w } above below := by
  have hle : s.lowOver f.low w ≤ f.low := by
    unfold lowOver
    split
    · exact Nat.min_le_left _ _
    · exact Nat.le_refl _
  have hcov : s.Covers (s.lowOver f.low w) below w := by
    refine ⟨hw, fun hb => ?_⟩
    have hmem : s.stack.contains w = true := by
      rw [List.contains_iff_mem, hstack]
      exact List.mem_append_right _ (List.mem_cons_of_mem _ hb)
    rw [lowOver, if_pos hmem]
    exact Nat.min_le_right _ _
  have hedge : w ∈ g.successors f.node := h.rest_sub w (hf ▸ List.mem_cons_self)
  refine ⟨h.reaches, Nat.le_trans hle h.low_le, ?_, fun v hv => h.rest_sub v (hf ▸ List.mem_cons_of_mem _ hv), ?_,
    fun x hx v hv => (h.left x hx v hv).mono hle fun _ hb => hb⟩
  · -- either the successor has a smaller number, and then it lies below, or nothing changes
    by_cases hlt : s.stack.contains w = true ∧ s.number w < f.low
    · have hb := hp.mem_below (hstack ▸ List.contains_iff_mem.1 hlt.1) (Nat.lt_of_lt_of_le hlt.2 h.low_le)
      refine ⟨w, List.mem_cons_of_mem _ hb, ?_, .edge hedge⟩
      simp only [lowOver, if_pos hlt.1]
      exact (Nat.min_eq_right (Nat.le_of_lt hlt.2)).symm
    · have heq : s.lowOver f.low w = f.low := by
        unfold lowOver
        split
        · rename_i hmem
          exact Nat.min_eq_left (Nat.le_of_not_lt fun h => hlt ⟨hmem, h⟩)
        · rfl
      simp only [heq]
      exact h.low_reached
  · intro v hv
    rcases h.seen v hv with hr | hc
    · rw [hf] at hr
      rcases List.mem_cons.1 hr with rfl | hr
      · exact Or.inr hcov
      · exact Or.inl hr
    · exact Or.inr (hc.mono hle fun _ hb => hb)

/-- Looking at a successor that was met before keeps a search sound. -/
theorem Sound.skip {s : Search} (h : Sound g s) {f : Frame} {callers : List Frame} (hframes : s.frames = f :: callers)
    {w : Nat} {rest : List Nat} (hf : f.rest = w :: rest) (hw : s.isNew w = false) :
    Sound g { s with frames := { f with rest, low := s.lowOver f.low w } :: callers } := by
  obtain ⟨above, below, hstack, hl, hcallers⟩ := (hframes ▸ h.layered).exists_top
  have hskip := hl.skip (hstack ▸ h.piled) hstack hf hw
  refine h.withFrames ?_
  rw [hstack]
  exact .cons hskip hcallers

/-! ## Leaving a node -/

/-- A frame keeps the least number that is reached from it when it takes over a layer that was on top of its own. -/
theorem Layer.merge {s : Search} {f p : Frame} {above below above' below' : List Nat} (hf : Layer g s f above below)
    (hp : Layer g s p above' below') (hbelow : below = above' ++ p.node :: below')
    (hpiled : Piled g s (above ++ f.node :: below)) (hdone : f.rest = []) (hlt : f.low < s.number f.node)
    (htop : ∀ x ∈ below, g.Reaches x p.node) :
    Layer g s { p with low := min p.low f.low } (above ++ f.node :: above') below' := by
  obtain ⟨_, hunder, hrest⟩ := hpiled.split
  obtain ⟨b, hb, hblow, hbreach⟩ := hf.low_reached
  have hbelow' : ∀ x ∈ below', x ∈ below := by
    intro x hx
    rw [hbelow]
    exact List.mem_append_right _ (List.mem_cons_of_mem _ hx)
  have hb' : b ∈ below := by
    rcases List.mem_cons.1 hb with rfl | hb
    · omega
    · exact hb
  have hup : g.Reaches f.node p.node := hbreach.trans (htop b hb')
  have hdown : g.Reaches p.node f.node := (hunder p.node (by rw [hbelow]; simp)).2
  refine ⟨?_, Nat.le_trans (Nat.min_le_left _ _) hp.low_le, ?_, hp.rest_sub, ?_, ?_⟩
  · intro x hx
    rcases List.mem_append.1 hx with hx | hx
    · exact (hf.reaches x hx).trans hup
    · rcases List.mem_cons.1 hx with rfl | hx
      · exact hup
      · exact hp.reaches x hx
  · by_cases hle : p.low ≤ f.low
    · simp only [Nat.min_eq_left hle]
      exact hp.low_reached
    · have hle' : f.low ≤ p.low := Nat.le_of_not_le hle
      have hblt : s.number b < s.number p.node := by
        have := hp.low_le
        omega
      have hmem := (hbelow ▸ hrest).mem_below (hbelow ▸ hb') hblt
      exact ⟨b, List.mem_cons_of_mem _ hmem, by simp only [Nat.min_eq_right hle', hblow], hdown.trans hbreach⟩
  · intro v hv
    exact (hp.seen v hv).imp_right fun hc => hc.mono (Nat.min_le_left _ _) fun _ hx => hx
  · intro x hx v hv
    rcases List.mem_append.1 hx with hx | hx
    · exact (hf.left x hx v hv).mono (Nat.min_le_right _ _) hbelow'
    · rcases List.mem_cons.1 hx with rfl | hx
      · rcases hf.seen v hv with hr | hc
        · rw [hdone] at hr
          exact absurd hr List.not_mem_nil
        · exact hc.mono (Nat.min_le_right _ _) hbelow'
      · exact (hp.left x hx v hv).mono (Nat.min_le_left _ _) fun _ hx => hx

/-- The stack below a node that reaches something older belongs to the node it was met from, which takes its layer over. -/
theorem Layer.layered_merge {s : Search} {f : Frame} {callers : List Frame} {above below : List Nat}
    (hf : Layer g s f above below) (hcallers : Layered g s callers below) (hpiled : Piled g s (above ++ f.node :: below))
    (hdone : f.rest = []) (hlt : f.low < s.number f.node) :
    Layered g s (lowerTop f.low callers) (above ++ f.node :: below) := by
  have hbelow := hpiled.split.2.2
  cases hcallers with
  | nil =>
    obtain ⟨b, hb, hblow, _⟩ := hf.low_reached
    rw [List.mem_singleton] at hb
    subst hb
    omega
  | @cons p ps above' below' hp hps =>
    have htop := (Layered.cons hp hps).reaches_top hbelow
    have := Layered.cons (hf.merge hp rfl hpiled hdone hlt htop) hps
    simpa [lowerTop] using this

/-- The frames below a component that is complete know of nothing older than it through it. -/
theorem Layered.lowerTop_eq {s : Search} {low : Nat} {callers : List Frame} {below : List Nat}
    (h : Layered g s callers below) (hlt : ∀ x ∈ below, s.number x < low) : lowerTop low callers = callers := by
  cases h with
  | nil => rfl
  | @cons p _ _ _ hp _ =>
    have h1 := hp.low_le
    have h2 := hlt p.node (by simp)
    simp only [lowerTop, Nat.min_eq_left (show p.low ≤ low by omega)]

/-- An edge from the layer of a node that reaches nothing older stays in the layer or leads to a complete component. -/
theorem Sound.edge_of_closing {s : Search} (h : Sound g s) (hg : g.Closed) {f : Frame} {above below : List Nat}
    (hstack : s.stack = above ++ f.node :: below) (hl : Layer g s f above below) (hdone : f.rest = [])
    (hlow : f.low = s.number f.node) {u v : Nat} (hu : u ∈ f.node :: above) (hv : v ∈ g.successors u) :
    v ∈ f.node :: above ∨ v ∈ s.components.flatten := by
  have hcov : s.Covers f.low below v := by
    rcases List.mem_cons.1 hu with rfl | hu
    · refine (hl.seen v hv).resolve_left fun hr => ?_
      rw [hdone] at hr
      exact absurd hr List.not_mem_nil
    · exact hl.left u hu v hv
  have hmem := (h.mem_iff v).2 ⟨hg u v hv, hcov.1⟩
  rw [List.mem_append, hstack, List.mem_append, List.mem_cons] at hmem
  rcases hmem with (hmem | rfl | hmem) | hmem
  · exact Or.inl (List.mem_cons_of_mem _ hmem)
  · exact Or.inl List.mem_cons_self
  · have hlt := ((hstack ▸ h.piled).split.2.1 v hmem).1
    have := hcov.2 hmem
    omega
  · exact Or.inr hmem

/-- The layer of a node that reaches nothing older is a component. -/
theorem Sound.isComponent_of_closing {s : Search} (h : Sound g s) (hg : g.Closed) {f : Frame} {above below : List Nat}
    (hstack : s.stack = above ++ f.node :: below) (hl : Layer g s f above below) (hdone : f.rest = [])
    (hlow : f.low = s.number f.node) : IsComponent g (sortNodes (f.node :: above)) := by
  have hperm := perm_sortNodes (f.node :: above)
  have hmid : (above ++ f.node :: below).Perm ((f.node :: above) ++ below) := List.perm_middle
  have hnodup : ((f.node :: above) ++ below ++ s.components.flatten).Nodup :=
    (hmid.append_right _).nodup_iff.1 (hstack ▸ h.nodup)
  have hconn : ∀ x ∈ f.node :: above, g.Connected f.node x := by
    intro x hx
    rcases List.mem_cons.1 hx with rfl | hx
    · exact .refl _
    · exact ⟨((hstack ▸ h.piled).split.1 x hx).2, hl.reaches x hx⟩
  refine ⟨?_, ?_, ?_⟩
  · intro hnil
    have := hperm.length_eq
    rw [hnil] at this
    cases this
  · exact ascending_sortNodes (List.nodup_append.1 (List.nodup_append.1 hnodup).1).1
  · intro u hu v
    rw [hperm.mem_iff] at hu ⊢
    refine ⟨fun hv => (hconn u hu).symm.trans (hconn v hv), fun hc => ?_⟩
    -- what the layer reaches is in the layer or complete, and what is complete does not reach back
    have hK : ∀ a ∈ (f.node :: above) ++ s.components.flatten, ∀ b ∈ g.successors a,
        b ∈ (f.node :: above) ++ s.components.flatten := by
      intro a ha b hb
      rw [List.mem_append] at ha ⊢
      rcases ha with ha | ha
      · exact h.edge_of_closing hg hstack hl hdone hlow ha hb
      · exact Or.inr (h.complete.closed a ha b hb)
    rcases List.mem_append.1 (hc.1.mem_of_closed hK (List.mem_append_left _ hu)) with hv | hv
    · exact hv
    · have huc := hc.2.mem_of_closed h.complete.closed hv
      have hdisj := (List.nodup_append.1 hnodup).2.2 u (List.mem_append_left _ hu) u huc
      exact absurd rfl hdisj

/-- A stack of distinct nodes, cut at one of them. -/
theorem cut_stack {above : List Nat} {u : Nat} (h : u ∉ above) (below : List Nat) :
    (above ++ u :: below).takeWhile (· ≠ u) = above ∧ ((above ++ u :: below).dropWhile (· ≠ u)).tail = below := by
  have hne : ∀ x ∈ above, decide (x ≠ u) = true := fun x hx => decide_eq_true fun hxu => h (hxu ▸ hx)
  rw [List.takeWhile_append_of_pos hne, List.dropWhile_append_of_pos hne]
  simp

/-- Leaving a node keeps a search sound. -/
theorem Sound.leave {s : Search} (h : Sound g s) (hg : g.Closed) {f : Frame} {callers : List Frame}
    (hframes : s.frames = f :: callers) (hdone : f.rest = []) : Sound g (s.leave f callers) := by
  obtain ⟨above, below, hstack, hl, hcallers⟩ := (hframes ▸ h.layered).exists_top
  have hpiled := hstack ▸ h.piled
  by_cases hlow : f.low = s.number f.node
  · have hfresh : f.node ∉ above := fun hmem => absurd (hpiled.split.1 _ hmem).1 (Nat.lt_irrefl _)
    obtain ⟨htake, hdrop⟩ := cut_stack hfresh below
    have htop : lowerTop f.low callers = callers := hcallers.lowerTop_eq fun x hx => hlow ▸ (hpiled.split.2.1 x hx).1
    have hperm := perm_sortNodes (f.node :: above)
    have hmoved : (s.stack ++ s.components.flatten).Perm
        (below ++ (sortNodes (f.node :: above) :: s.components).flatten) := by
      rw [hstack, List.flatten_cons, ← List.append_assoc]
      refine List.Perm.append_right _ ?_
      refine List.perm_middle.trans ?_
      exact List.perm_append_comm.trans ((List.Perm.refl below).append hperm.symm)
    rw [Search.leave, if_pos hlow, htop, hstack, htake, hdrop]
    refine ⟨h.size_eq, fun u hu => ?_, fun u => ?_, hmoved.nodup_iff.1 h.nodup, hpiled.split.2.2, ?_, ?_⟩
    · exact h.number_lt u (by rw [hstack]; simp [hu])
    · rw [← hmoved.mem_iff]
      exact h.mem_iff u
    · exact hcallers.congr (fun _ _ => rfl) fun _ hv => hv
    · refine .cons (h.isComponent_of_closing hg hstack hl hdone hlow) (fun u hu v hv => ?_) h.complete
      rw [hperm.mem_iff] at hu ⊢
      exact h.edge_of_closing hg hstack hl hdone hlow hu hv
  · have hmerged := hl.layered_merge hcallers hpiled hdone (Nat.lt_of_le_of_ne hl.low_le hlow)
    rw [Search.leave, if_neg hlow]
    exact h.withFrames (hstack ▸ hmerged)

/-! ## Steps and runs -/

/-- One step keeps a search sound. -/
theorem Sound.step {s : Search} (h : Sound g s) (hg : g.Closed) : Sound g (s.step g) := by
  unfold Search.step
  split
  · exact h
  · rename_i f callers hframes
    split
    · rename_i hdone
      exact h.leave hg hframes hdone
    · rename_i w rest hf
      split
      · rename_i hw
        exact h.meet hframes hf hw
      · rename_i hw
        exact h.skip hframes hf (Bool.eq_false_iff.2 hw)

/-- A step never forgets that a node was met. -/
theorem isNew_step {s : Search} {v : Nat} (hv : s.isNew v = false) : (s.step g).isNew v = false := by
  unfold Search.step
  split
  · exact hv
  · split
    · unfold Search.leave
      split <;> exact hv
    · split
      · rename_i hw
        have hmet : (enter g s _).isNew v = false := isNew_enter_of_met hw v hv
        exact hmet
      · exact hv

/-- A run of steps keeps a search sound and ends with no node being looked at. -/
theorem Sound.run {s : Search} (h : Sound g s) (hg : g.Closed) : Sound g (Search.run g s) ∧ (Search.run g s).frames = [] := by
  fun_induction Search.run g s with
  | case1 s hframes => exact ⟨h, hframes⟩
  | case2 s _ ih => exact ih (h.step hg)

/-- What was met stays met in a whole run. -/
theorem isNew_run {s : Search} {v : Nat} (hv : s.isNew v = false) : (run g s).isNew v = false := by
  fun_induction Search.run g s with
  | case1 => exact hv
  | case2 s _ ih => exact ih (isNew_step hv)

/-- A search between two runs: nothing is being looked at, so every node that was met is in a complete component. -/
structure Rested (g : Digraph) (s : Search) : Prop where
  sound : Sound g s
  frames_eq : s.frames = []

/-- Without a frame there is no layer. -/
theorem Layered.eq_nil {s : Search} {stack : List Nat} (h : Layered g s [] stack) : stack = [] := by
  cases h with
  | nil => rfl

/-- A search at rest has an empty stack. -/
theorem Rested.stack_eq {s : Search} (h : Rested g s) : s.stack = [] := (h.frames_eq ▸ h.sound.layered).eq_nil

/-- Searching from a node ends in rest, with that node and all that were met before met. -/
theorem Rested.explore {s : Search} (h : Rested g s) (hg : g.Closed) (u : Nat) :
    Rested g (Search.explore g s u) ∧ (Search.explore g s u).isNew u = false ∧
      ∀ v, s.isNew v = false → (Search.explore g s u).isNew v = false := by
  unfold Search.explore
  split
  · rename_i hu
    have hstack := h.stack_eq
    have hsound : Sound g (Search.enter g { s with frames := [] } u) := by
      refine h.sound.enter hu (fun x hx => ?_) ?_
      · rw [hstack] at hx
        exact absurd hx List.not_mem_nil
      · rw [hstack]
        exact .nil
    rw [show ({ s with frames := [] } : Search) = s by rw [← h.frames_eq]] at hsound
    obtain ⟨hrun, hframes⟩ := hsound.run hg
    refine ⟨⟨hrun, hframes⟩, isNew_run ?_, fun v hv => isNew_run (isNew_enter_of_met hu v hv)⟩
    rw [isNew_enter u hu]
    simp
  · rename_i hu
    exact ⟨h, Bool.eq_false_iff.2 hu, fun v hv => hv⟩

/-- Searching from one node after the other meets all of them. -/
theorem Rested.foldl_explore {s : Search} (h : Rested g s) (hg : g.Closed) (us : List Nat) :
    Rested g (us.foldl (Search.explore g) s) ∧ (∀ u ∈ us, (us.foldl (Search.explore g) s).isNew u = false) ∧
      ∀ v, s.isNew v = false → (us.foldl (Search.explore g) s).isNew v = false := by
  induction us generalizing s with
  | nil => exact ⟨h, fun u hu => absurd hu List.not_mem_nil, fun v hv => hv⟩
  | cons u rest ih =>
    obtain ⟨hrest, hu, hold⟩ := h.explore hg u
    obtain ⟨hend, hmet, hkept⟩ := ih hrest
    refine ⟨hend, fun v hv => ?_, fun v hv => hkept v (hold v hv)⟩
    rcases List.mem_cons.1 hv with rfl | hv
    · exact hkept v hu
    · exact hmet v hv

/-- The start of a search is sound. -/
theorem rested_start : Rested g { numbers := Array.replicate g.size none } := by
  refine ⟨⟨Array.size_replicate, fun u hu => absurd hu List.not_mem_nil, fun u => ?_, List.nodup_nil, List.Pairwise.nil, .nil,
    .nil⟩, rfl⟩
  simp [isNew, Array.getElem?_replicate]

end Search

/-- A whole search is in rest at its end and has met every node. -/
theorem search_rested (hg : g.Closed) : Search.Rested g g.search ∧ ∀ u < g.size, g.search.isNew u = false := by
  obtain ⟨hrest, hmet, -⟩ := Search.rested_start.foldl_explore hg (List.range g.size)
  exact ⟨hrest, fun u hu => hmet u (List.mem_range.2 hu)⟩

end PatchGraph.Digraph
