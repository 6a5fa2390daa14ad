/-!
# Directed graphs

A graph on the numbers below its size. Its strongly connected components are found by one depth-first search, which numbers the
nodes in the order it meets them and stacks those whose component is not complete yet. Each node whose successors are being looked
at has a frame, which keeps the least number of a stacked node that is known to be reached from there. A node that reaches none
older than itself closes a component: itself and all that is stacked above it. So an edge never leads to a component that is
complete later.
-/

namespace PatchGraph

/-- A directed graph on the numbers below its size: the successors of each node, ascending. -/
structure Digraph where
  next : Array (List Nat)
  deriving DecidableEq, Inhabited

namespace Digraph

/-- The number of nodes. -/
def size (g : Digraph) : Nat := g.next.size

/-- Insert a node into nodes that are sorted. -/
def insertNode (v : Nat) : List Nat → List Nat
  | [] => [v]
  | w :: rest => if v ≤ w then v :: w :: rest else w :: insertNode v rest

/-- Sort nodes. -/
def sortNodes (vs : List Nat) : List Nat := vs.foldr insertNode []

/-- Add the target of an arrow to the successors of its source. -/
def push (next : Array (List Nat)) (arrow : Nat × Nat) : Array (List Nat) := next.modify arrow.1 (· ++ [arrow.2])

/-- The graph of a number of nodes with given arrows between them. The arrows are added one after the other; then the successors of each
node are sorted, and repeats are left out. -/
def ofArrows (size : Nat) (arrows : List (Nat × Nat)) : Digraph :=
  ⟨(arrows.foldl push (Array.replicate size [])).map fun vs => (sortNodes vs).eraseReps⟩

/-- The successors of a node, ascending. -/
def successors (g : Digraph) (u : Nat) : List Nat := (g.next[u]?).getD []

/-- Whether a node is its own successor. -/
def hasLoop (g : Digraph) (u : Nat) : Bool := (g.successors u).contains u

/-! ## Depth-first search -/

/-- A node whose successors are being looked at: the least number it is known to reach on the stack, and the successors to go. -/
structure Frame where
  node : Nat
  low : Nat
  rest : List Nat
  deriving DecidableEq

/-- The work that is left on a node: its successors to go, and to leave it. -/
def Frame.work (f : Frame) : Nat := f.rest.length + 1

/-- A depth-first search: the number each node was met under, the next number, the nodes whose component is not complete (the last
one first), the nodes whose successors are being looked at (the innermost first), and the complete components (the last one first). -/
structure Search where
  numbers : Array (Option Nat)
  next : Nat := 0
  stack : List Nat := []
  frames : List Frame := []
  components : List (List Nat) := []
  deriving DecidableEq

namespace Search

/-- The number a node was met under. -/
def number (s : Search) (u : Nat) : Nat := (s.numbers[u]?.join).getD 0

/-- Whether a node was not met yet. -/
def isNew (s : Search) (u : Nat) : Bool := s.numbers[u]? = some none

/-- Meet a node. -/
def enter (g : Digraph) (s : Search) (u : Nat) : Search :=
  { s with
    numbers := s.numbers.setIfInBounds u (some s.next)
    next := s.next + 1
    stack := u :: s.stack
    frames := ⟨u, s.next, g.successors u⟩ :: s.frames }

/-- The least number reached over a successor that was met before; one whose component is complete does not count. -/
def lowOver (s : Search) (low w : Nat) : Nat := if s.stack.contains w then min low (s.number w) else low

/-- Hand the least number that a node reaches on to the node it was met from. -/
def lowerTop (low : Nat) : List Frame → List Frame
  | [] => []
  | f :: rest => { f with low := min f.low low } :: rest

/-- Leave a node whose successors were all looked at. If it reaches nothing older, its component is complete. -/
def leave (s : Search) (f : Frame) (callers : List Frame) : Search :=
  if f.low = s.number f.node then
    { s with
      frames := lowerTop f.low callers
      stack := (s.stack.dropWhile (· ≠ f.node)).tail
      components := sortNodes (f.node :: s.stack.takeWhile (· ≠ f.node)) :: s.components }
  else { s with frames := lowerTop f.low callers }

/-- Look at one more successor of the innermost node, or leave that node if there is none. -/
def step (g : Digraph) (s : Search) : Search :=
  match s.frames with
  | [] => s
  | f :: callers =>
    match f.rest with
    | [] => s.leave f callers
    | w :: rest =>
      if s.isNew w then enter g { s with frames := { f with rest } :: callers } w
      else { s with frames := { f with rest, low := s.lowOver f.low w } :: callers }

/-! Each node is met once and left once, and each of its successors is looked at once, so the work that is left shrinks. -/

/-- The sum of a value over a list. -/
def total {α : Type} (f : α → Nat) : List α → Nat
  | [] => 0
  | x :: rest => f x + total f rest

/-- The work on a node that was not met yet. -/
def newWork (g : Digraph) (s : Search) (u : Nat) : Nat := if s.isNew u then (g.successors u).length + 2 else 0

/-- The work that is left. -/
def work (g : Digraph) (s : Search) : Nat := total (s.newWork g) (List.range s.numbers.size) + total Frame.work s.frames

/-- A node that is met is new no longer, and no other node changes. -/
theorem isNew_enter {g : Digraph} {s : Search} {w : Nat} (u : Nat) (hw : s.isNew w = true) :
    (enter g s w).isNew u = (s.isNew u && u != w) := by
  have hlt : w < s.numbers.size := by
    simp only [isNew, decide_eq_true_eq, Array.getElem?_eq_some_iff] at hw
    exact hw.1
  by_cases hu : u = w
  · subst hu
    simp [isNew, enter, hlt]
  · simp [isNew, enter, Array.getElem?_setIfInBounds_ne (Ne.symm hu), hu]

/-- Smaller values have a smaller sum. -/
theorem total_le_total {f f' : Nat → Nat} (hle : ∀ u, f' u ≤ f u) (us : List Nat) : total f' us ≤ total f us := by
  induction us with
  | nil => exact Nat.le_refl _
  | cons u rest ih => exact Nat.add_le_add (hle u) ih

/-- Values that nowhere grow, and shrink by an amount at a member, have a sum that shrinks by that amount. -/
theorem total_add_le {f f' : Nat → Nat} {w d : Nat} {us : List Nat} (hle : ∀ u, f' u ≤ f u) (hw : f' w + d ≤ f w)
    (hmem : w ∈ us) : total f' us + d ≤ total f us := by
  induction us with
  | nil => exact absurd hmem List.not_mem_nil
  | cons u rest ih =>
    simp only [total]
    rcases List.mem_cons.1 hmem with rfl | hmem
    · have := total_le_total hle rest
      omega
    · have := ih hmem
      have := hle u
      omega

/-- To meet a node takes its work from the work on new nodes. -/
theorem total_newWork_enter {g : Digraph} {s : Search} {w : Nat} (hw : s.isNew w = true) :
    total ((enter g s w).newWork g) (List.range (enter g s w).numbers.size) + ((g.successors w).length + 2)
      ≤ total (s.newWork g) (List.range s.numbers.size) := by
  have hsize : (enter g s w).numbers.size = s.numbers.size := by simp [enter]
  rw [hsize]
  refine total_add_le (w := w) ?_ ?_ ?_
  · intro u
    simp only [newWork, isNew_enter u hw]
    by_cases hu : s.isNew u <;> by_cases huw : u = w <;> simp [hu, huw]
  · simp [newWork, isNew_enter w hw, hw]
  · simp only [isNew, decide_eq_true_eq, Array.getElem?_eq_some_iff] at hw
    exact List.mem_range.2 hw.1

theorem total_lowerTop (low : Nat) (fs : List Frame) : total Frame.work (lowerTop low fs) = total Frame.work fs := by
  cases fs <;> rfl

/-- To leave a node takes its frame from the work. -/
theorem work_leave {g : Digraph} {s : Search} {f : Frame} {callers : List Frame} :
    (s.leave f callers).work g = total (s.newWork g) (List.range s.numbers.size) + total Frame.work callers := by
  unfold leave
  split <;> simp only [work, total_lowerTop] <;> rfl

/-- Each step leaves less work. -/
theorem work_step_lt {g : Digraph} {s : Search} (h : s.frames ≠ []) : (s.step g).work g < s.work g := by
  unfold step
  split
  · contradiction
  · rename_i f callers hs
    split
    · rw [work_leave, work, hs]
      simp only [total, Frame.work]
      omega
    · rename_i w rest hf
      split
      · rename_i hw
        have htotal : total (newWork g _) (List.range _) + ((g.successors w).length + 2)
          ≤ total (s.newWork g) (List.range s.numbers.size) :=
          total_newWork_enter (s := { s with frames := { f with rest } :: callers }) hw
        simp only [work, hs, total, Frame.work, hf, List.length_cons]
        simp only [enter, total, Frame.work] at htotal ⊢
        omega
      · simp only [work, hs, total, Frame.work, hf, List.length_cons]
        exact Nat.add_lt_add_left (by omega) _

/-- Search on until no node is being looked at. -/
def run (g : Digraph) (s : Search) : Search :=
  if _h : s.frames = [] then s else run g (s.step g)
  termination_by s.work g
  decreasing_by exact work_step_lt _h

/-- Search from a node, unless it was met before. -/
def explore (g : Digraph) (s : Search) (u : Nat) : Search := if s.isNew u then run g (enter g s u) else s

end Search

/-- The search through a whole graph. -/
def search (g : Digraph) : Search := (List.range g.size).foldl (Search.explore g) { numbers := Array.replicate g.size none }

/-- The strongly connected components in the order they are completed: an edge between two components leads to an earlier one. -/
def components (g : Digraph) : List (List Nat) := g.search.components.reverse

end Digraph

end PatchGraph
