import PatchGraph.Proofs.Compile.Stages
import PatchGraph.Registry.Builtin

/-!
# The form of inputs

Every value that reaches an input was coerced to the input's type or reduced from such values, in whichever stage it was resolved. So the
inputs of a linked program have the form their types ask for, whatever the lowerings and transforms of the registry return: the regime
that asks nothing else (`Regime.free`) is kept by all of them.
-/

namespace PatchGraph

namespace Regime

/-- What holds of lowered blocks in any regime does in this one. -/
theorem Good.free {R : Regime} {a : Analysis} {S : Scope} {v : Visited} {b : Builder} (h : R.Good a S v b) : free.Good a S v b where
  inv := trivial
  outcomes x hx := (h.outcomes x hx).imp False.elim fun v _ => raw_free b v
  forwards := h.forwards
  known := h.known
  distinct := h.distinct
  reserved := False.elim

/-- The lowering of a block leaves those that were lowered before as they are. -/
theorem Good.outcomes_lowerBlock {R : Regime} {a : Analysis} {slots : BusSlots} {v : Visited} {w : Workbench}
    (h : R.Good a (.whole a slots) v w.builder) (ix : BlockIx) :
    (((Visit.lowerBlock a slots ix).run v).run w).1.2.outcomes = v.outcomes :=
  (visits_lowerBlock (lawful_free a) (fun _ _ _ _ _ _ => builds_free trivial) (fun _ x _ => Scope.admits_whole a slots x) h.free).outcomes

theorem holds_free (p : Patch) (r : Registry) (time : Time) (options : Options) :
    free.Holds (p.analysis r time) ((p.analysis r time).emission (p.normalize r).2 options) :=
  holds_emission (lawful_free _) (fun _ _ => builds_free trivial) ⟨fun _ _ => trivial, fun _ _ _ _ _ => builds_free trivial⟩
    (fun _ _ => builds_free trivial) options (List.length_map _) trivial

end Regime

/-! ## Walks -/

/-- What holds of the nodes that were taken, and is kept by the next one, holds of all nodes when they are lowered. -/
theorem Visit.lowerNodes_induction {a : Analysis} {slots : BusSlots} {order : List Nat} {I : List Nat → Visited → Workbench → Prop}
    (hbus : ∀ front u back ix v w, order = front ++ u :: back → a.graph.node u = .bus ix → I front v w → I (front ++ [u]) v w)
    (hblock : ∀ front u back ix v w, order = front ++ u :: back → a.graph.node u = .block ix → I front v w →
      let s := ((lowerBlock a slots ix).run v).run w
      I (front ++ [u]) { s.1.2 with outcomes := s.1.2.outcomes ++ [(ix, s.1.1)] } s.2)
    {front back : List Nat} (hsplit : order = front ++ back) {v : Visited} {w : Workbench} (h : I front v w) :
    let s := ((lowerNodes a slots back).run v).run w
    I order s.1.2 s.2 := by
  induction back generalizing front v w with
  | nil =>
    rw [List.append_nil] at hsplit
    rw [hsplit]
    exact h
  | cons u rest ih =>
    have hnext : order = (front ++ [u]) ++ rest := by rw [hsplit, List.append_assoc, List.singleton_append]
    unfold lowerNodes
    cases hu : a.graph.node u with
    | bus ix => exact ih hnext (hbus front u rest ix v w hsplit hu h)
    | block ix => exact ih hnext (hblock front u rest ix v w hsplit hu h)

/-- Each block among nodes has an outcome. -/
def Visited.Knows (a : Analysis) (nodes : List Nat) (v : Visited) : Prop :=
  ∀ u ∈ nodes, ∀ ix, a.graph.node u = .block ix → (v.outcomes.lookup ix).isSome = true

theorem Visited.knows_nil (a : Analysis) (v : Visited) : v.Knows a [] := List.forall_mem_nil _

theorem Visited.Knows.bus {a : Analysis} {nodes : List Nat} {v : Visited} (h : v.Knows a nodes) {u : Nat} {ix : BusIx}
    (hu : a.graph.node u = .bus ix) : v.Knows a (nodes ++ [u]) := by
  refine List.forall_mem_append.2 ⟨h, List.forall_mem_singleton.2 fun b hb => ?_⟩
  cases hu.symm.trans hb

theorem Visited.Knows.block {a : Analysis} {nodes : List Nat} {v v' : Visited} (h : v.Knows a nodes) {u : Nat} {ix : BlockIx}
    (hu : a.graph.node u = .block ix) {o : BlockOutcome} (hv : v'.outcomes = v.outcomes ++ [(ix, o)]) : v'.Knows a (nodes ++ [u]) := by
  refine List.forall_mem_append.2 ⟨fun x hx b hb => ?_, List.forall_mem_singleton.2 fun b hb => ?_⟩
  · rw [hv, List.lookup_append, Option.isSome_or, h x hx b hb, Bool.true_or]
  · obtain rfl := Node.block.inj (hu.symm.trans hb)
    rw [hv, List.lookup_append, Option.isSome_or, List.lookup_cons_self]
    exact Bool.or_true _

/-- When nodes are lowered, each block among them has an outcome, and what is true of the outcome of a block, whatever came before, is
true of all outcomes. -/
theorem Visit.outcomes_lowerNodes {a : Analysis} {slots : BusSlots} {Q : BlockIx → BlockOutcome → Prop}
    (hQ : ∀ ix v w, Q ix (((lowerBlock a slots ix).run v).run w).1.1) (nodes : List Nat) (w : Workbench) :
    let v := (((lowerNodes a slots nodes).run {}).run w).1.2
    v.Knows a nodes ∧ ∀ x ∈ v.outcomes, Q x.1 x.2 := by
  refine (lowerNodes_induction (I := fun front v w => Regime.free.Good a (.whole a slots) v w.builder ∧ v.Knows a front
    ∧ ∀ x ∈ v.outcomes, Q x.1 x.2)
    ?_ ?_ (List.nil_append nodes).symm ⟨Regime.good_start trivial, Visited.knows_nil a _, List.forall_mem_nil _⟩).2
  · intro front u back ix v w _ hu ⟨hgood, hknown, hall⟩
    exact ⟨hgood, hknown.bus hu, hall⟩
  · intro front u back ix v w _ hu ⟨hgood, hknown, hall⟩ s
    have hblock : Regime.free.Visits a (.whole a slots) (lowerBlock a slots ix) v w fun o b => Regime.free.Outcome a ix o b :=
      Regime.visits_lowerBlock (Regime.lawful_free a) (fun _ _ _ _ _ _ => Regime.builds_free trivial)
        (fun _ x _ => Scope.admits_whole a slots x) hgood
    refine ⟨hblock.good.add hblock.result, hknown.block hu (congrArg (· ++ _) hblock.outcomes), ?_⟩
    dsimp only
    rw [hblock.outcomes]
    exact List.forall_mem_append.2 ⟨hall, List.forall_mem_singleton.2 (hQ ix v w)⟩

/-- What is true of the outcome of a block, whatever came before, is true of each block that the order takes. -/
theorem Analysis.outcome_emission {a : Analysis} {Q : BlockIx → BlockOutcome → Prop} {consts : Pool} {options : Options}
    (hQ : ∀ ix v w, Q ix (((Visit.lowerBlock a (a.emission consts options).slots ix).run v).run w).1.1) {ix : BlockIx}
    (hix : ix.index < a.patch.blocks.length) (horder : ∃ u ∈ a.order, a.graph.node u = .block ix) :
    Q ix ((a.emission consts options).lowered.outcome ix) := by
  let e := a.emission consts options
  let start := ((reserveBusSlots a.types.buses).run { consts, timeModel := some a.time.model }).2
  let v := (((Visit.lowerNodes a e.slots a.order).run {}).run { builder := start }).1.2
  have hv : e.lowered.outcomes = (List.range a.patch.blocks.length).map fun i => (v.outcomes.lookup ⟨i⟩).getD .skipped := rfl
  obtain ⟨hknown, hall⟩ := Visit.outcomes_lowerNodes hQ a.order { builder := start }
  obtain ⟨u, hu, hnode⟩ := horder
  obtain ⟨o, ho⟩ := Option.isSome_iff_exists.1 (hknown u hu ix hnode)
  have houtcome : e.lowered.outcome ix = o := by
    have ho : v.outcomes.lookup ix = some o := ho
    rw [Lowered.outcome, hv, List.getElem?_map, List.getElem?_range hix]
    simp [ho]
  rw [houtcome]
  exact hall _ (mem_of_lookup ho)

/-- No value has the form of a type without a representation. -/
theorem ValueType.Fits.representation_ne_none {t : ValueType} {v : ValueRef} (h : t.Fits v) : t.representation ≠ .none := by
  intro hnone
  rw [Fits, hnone] at h
  cases v <;> cases h

/-- Each input of a linked program has a type, which has a representation, and a value of that form; so this obligation of the
verification is always met, with any lowerings and transforms. -/
theorem linked_inputs_fit {p : Patch} {r : Registry} {options : Options} {l : Linked} (h : (compile p r options).linked = some l) :
    l.inputsTyped = true ∧ ("R3_inputs_typed", true) ∈ l.verify.obligations ∧
      ∀ x ∈ l.inputs, ∃ t, x.type = some t ∧ x.value.fits t.representation = true ∧ t.representation ≠ .none := by
  obtain ⟨time, e, he, rfl, -⟩ := linked_compile h
  have hfree := Regime.holds_free p r time options
  rw [← he] at hfree
  have htyped : e.linked.inputsTyped = true := hfree.links.inputsTyped
  refine ⟨htyped, ?_, fun x hx => ?_⟩
  · rw [Linked.verify, htyped]
    exact List.mem_cons_of_mem _ (List.mem_cons_of_mem _ (List.mem_singleton_self _))
  · obtain ⟨t, ht, hfit⟩ := (Option.any_eq_true _ _).1 (List.all_eq_true.1 htyped x hx)
    exact ⟨t, ht, hfit, ValueType.Fits.representation_ne_none hfit⟩

/-- The built-in registry and a block whose lowering returns names of nothing, and a signal in place of a field. -/
def strayRegistry : Registry where
  blocks := Registry.builtin.blocks.insert "Stray"
    { decl := { type := "Stray", outputs := [⟨"out", "Field<float>"⟩] }
      lowering := some (.custom fun _ _ => return Lower.single "out" (.signal ⟨99⟩ ⟨99⟩))
      origin := "" }

/-- A sink that takes its size from a stray block. -/
def strayPatch : Patch where
  blocks := [⟨"s", "Stray", {}, {}⟩, ⟨"t", "InfiniteTimeRoot", {}, {}⟩, ⟨"v", "RenderInstances", {}, {}⟩]
  edges := [{ id := "e", source := .port "s" "out", target := .port "v" "size" }]

/-- The stray signal reaches the sink as a field. -/
theorem linked_inputs_fit_strayPatch :
    ∃ l, (compile strayPatch strayRegistry {}).linked = some l ∧ l.inBounds = false
      ∧ (∃ x ∈ l.inputs, x.port = "size" ∧ ∃ t, x.type = some t ∧ x.value.fits t.representation = true ∧ t.representation ≠ .none)
      ∧ ("R3_inputs_typed", true) ∈ l.verify.obligations := by
  have hlinked : (compile strayPatch strayRegistry {}).linked.any
      (fun l => l.inputs.any (fun x => x.port = "size") && !l.inBounds) = true := by
    decide +kernel
  obtain ⟨l, hl, hsize⟩ := (Option.any_eq_true _ _).1 hlinked
  obtain ⟨hsize, hstray⟩ := Bool.and_eq_true_iff.1 hsize
  obtain ⟨x, hx, hport⟩ := List.any_eq_true.1 hsize
  obtain ⟨-, hobligation, hall⟩ := linked_inputs_fit hl
  exact ⟨l, hl, by simpa using hstray, ⟨x, hx, of_decide_eq_true hport, hall x hx⟩, hobligation⟩

end PatchGraph
