import PatchGraph.Proofs.Compile.Stages
import PatchGraph.Proofs.Graph.Order
import PatchGraph.Proofs.Program.Growth
import PatchGraph.Proofs.Registry.Loaded

/-!
# Schedules follow the links

With a registry that was made of manifests the schedule stays empty until all else is done (`Regime.unscheduled`), so it holds the steps
of the nodes that have a value, in the order of evaluation. A schedule should have each node after what it needs, unless the node is a
state boundary. It has, with one exception: the order inside a cycle counts wires only and puts buses last, so that a listener of a bus
on the same cycle comes before the bus (`step_of_listener_lt`), although the two could be put in order (`listener_before_bus_busLoop`).
-/

namespace PatchGraph

/-- The step that evaluates a node. -/
def Node.step : Node → ScheduleStep
  | .block b => .block b
  | .bus b => .bus b

/-- The step that evaluates the node of a number. -/
def DependencyGraph.step (g : DependencyGraph) (u : Nat) : ScheduleStep := (g.node u).step

/-- Each node has a step of its own. -/
theorem DependencyGraph.step_injective {g : DependencyGraph} {u v : Nat} (h : g.step u = g.step v) : u = v := by
  unfold step node at h
  split at h <;> split at h
  all_goals simp only [Node.step, ScheduleStep.block.injEq, ScheduleStep.bus.injEq, BlockIx.mk.injEq, BusIx.mk.injEq, reduceCtorEq] at h
  · exact h
  · omega

/-! ## The schedule of an emission -/

namespace Linking

variable {a : Analysis} {l : Lowered} {buses : List BusOutcome} {u : Nat} {s : ScheduleStep}

/-- A node with a step stands for a block that was lowered or for a bus that has a value. -/
theorem step?_eq_some (h : step? a l buses u = some s) :
    (∃ b, a.graph.node u = .block b ∧ s = .block b ∧ (l.outcome b).outputs?.isSome = true)
      ∨ ∃ b, a.graph.node u = .bus b ∧ s = .bus b ∧ (buses[b.index]?).any (·.value.isSome) = true := by
  unfold step? at h
  cases hnode : a.graph.node u with
  | block b =>
    simp only [hnode, Option.ite_none_right_eq_some, Option.some.injEq] at h
    exact .inl ⟨b, rfl, h.2.symm, h.1⟩
  | bus b =>
    simp only [hnode, Option.ite_none_right_eq_some, Option.some.injEq] at h
    exact .inr ⟨b, rfl, h.2.symm, h.1⟩

/-- The step of a node is that of its block or its bus. -/
theorem eq_step_of_step? (h : step? a l buses u = some s) : s = a.graph.step u := by
  rw [DependencyGraph.step]
  rcases step?_eq_some h with ⟨b, hnode, rfl, -⟩ | ⟨b, hnode, rfl, -⟩
  · rw [hnode, Node.step]
  · rw [hnode, Node.step]

end Linking

namespace Regime

/-- The regime of all steps but those that lay down the schedule. -/
def unscheduled : Regime where
  Inv _ b := b.schedule = #[]
  Le _ _ := True
  Usable _ _ := True
  Bound _ _ := True

variable {α : Type} {rs rs' : List SlotId} {b : Builder}

/-- A step that leaves the schedule keeps to the regime. -/
theorem builds_unscheduled {m : Build α} {Q : α → Builder → Prop} (hb : unscheduled.Inv rs' b)
    (hm : (m.run b).2.schedule = b.schedule) (h : Q (m.run b).1 (m.run b).2) : unscheduled.Builds rs m b Q :=
  ⟨hm.trans hb, trivial, h⟩

/-- The elementary steps leave the schedule. -/
theorem stateful_unscheduled : unscheduled.Stateful where
  refl _ := trivial
  trans _ _ := trivial
  mono _ _ := trivial
  steady := id
  slotType := False.elim
  intern _ hb := builds_unscheduled hb rfl trivial
  signal hb _ _ _ := builds_unscheduled hb rfl trivial
  field hb _ _ := builds_unscheduled hb rfl trivial
  event hb _ _ := builds_unscheduled hb rfl trivial
  slotFor hb _ _ _ := builds_unscheduled hb rfl trivial
  handle _ _ hb := builds_unscheduled hb rfl trivial
  renderSink hb _ _ := builds_unscheduled hb rfl trivial
  camera hb _ _ := builds_unscheduled hb rfl trivial
  assert hb _ _ := builds_assert fun _ => ⟨hb, trivial⟩
  state _ _ hb := builds_unscheduled hb rfl trivial
  stateSignal hb _ _ := builds_unscheduled hb rfl trivial

theorem raw_unscheduled (b : Builder) (v : ValueRef) : unscheduled.Raw b v := ⟨fun _ _ => trivial, False.elim⟩

/-- To read a slot leaves the schedule. -/
theorem readSlot_unscheduled {s : SlotId} (hb : unscheduled.Inv rs b) :
    unscheduled.Builds rs (Build.readSlot s) b fun o b' => ∀ v ∈ o, unscheduled.Raw b' v :=
  builds_readSlot stateful_unscheduled.toElementary hb
    ⟨trivial, builds_unscheduled hb rfl trivial, builds_unscheduled hb rfl trivial, builds_unscheduled hb rfl trivial⟩

/-- To bind a slot leaves the schedule. -/
theorem binds_unscheduled : unscheduled.Binds where
  mono _ _ := trivial
  bind {rs b s v source} hb _ _ _ _ := by
    refine builds_unscheduled hb ?_ trivial
    rw [Build.run_bind]
    split <;> rfl

/-- The lowerings and transforms of a standard registry leave the schedule. -/
theorem lawful_unscheduled {a : Analysis} (hr : a.registry.Standard) : unscheduled.Lawful a :=
  stateful_unscheduled.lawful hr (fun _ _ => raw_unscheduled _ _) (fun hb _ => readSlot_unscheduled hb) False.elim

/-- The schedule of an emission: the steps of the nodes that have a value. -/
theorem schedule_emission {a : Analysis} (hr : a.registry.Standard) (hbuses : a.types.buses.length = a.patch.buses.length)
    (consts : Pool) (options : Options) :
    (a.emission consts options).linked.program.schedule = (a.emission consts options).steps a := by
  obtain ⟨b, hb⟩ := prepared_emission (lawful_unscheduled hr) (fun _ hb => builds_unscheduled hb rfl trivial) binds_unscheduled
    consts options hbuses rfl
  have hempty : b.schedule = #[] := hb.inv
  have hbuilder : (a.emission consts options).afterLink.builder.schedule = ((a.emission consts options).steps a).toArray := by
    rw [hb.builder, Linking.run_pushSteps, hempty]
    exact Array.empty_append
  exact congrArg Array.toList hbuilder

end Regime

/-! ## Places in the schedule -/

namespace Emission

variable {e : Emission} {a : Analysis} {P : Nat → Nat → Prop}

/-- What holds of an earlier and a later node in the order of evaluation holds of the nodes of an earlier and a later step. -/
theorem pairwise_steps (h : e.lowered.order.Pairwise P) :
    (e.steps a).Pairwise fun s t => ∀ u v, s = a.graph.step u → t = a.graph.step v → P u v := by
  refine List.Pairwise.filterMap _ ?_ h
  intro u v huv s hs t ht u' v' hu' hv'
  have hu := (Linking.eq_step_of_step? hs).symm.trans hu'
  have hv := (Linking.eq_step_of_step? ht).symm.trans hv'
  rw [← DependencyGraph.step_injective hu, ← DependencyGraph.step_injective hv]
  exact huv

/-- A node that may not come after another has the earlier step. -/
theorem lt_of_steps (h : e.lowered.order.Pairwise P) {u v i j : Nat} (hne : u ≠ v) (hback : ¬P v u)
    (hi : (e.steps a)[i]? = some (a.graph.step u)) (hj : (e.steps a)[j]? = some (a.graph.step v)) : i < j := by
  rcases Nat.lt_trichotomy i j with hlt | rfl | hgt
  · exact hlt
  · exact absurd (DependencyGraph.step_injective (Option.some.inj (hi.symm.trans hj))) hne
  · obtain ⟨hilt, hi⟩ := List.getElem?_eq_some_iff.1 hi
    obtain ⟨hjlt, hj⟩ := List.getElem?_eq_some_iff.1 hj
    exact absurd (List.pairwise_iff_getElem.1 (pairwise_steps h) j i hjlt hilt hgt v u hj hi) hback

end Emission

namespace Normalized

variable {n : Normalized} {r : Registry} {k : Link}

/-- A node that is linked to itself is a cycle. -/
theorem isCycle_of_self_link (hk : k ∈ (n.dependencies r).links) (hself : k.source = k.target) :
    (n.dependencies r).graph.IsCycle [k.target] := by
  have hedge : k.target ∈ (n.dependencies r).graph.successors k.source := mem_successors_iff.2 ⟨k, hk, rfl, rfl⟩
  rw [hself] at hedge
  exact List.isChain_pair.2 hedge

variable {a : Analysis} {e : Emission} {i j : Nat} (hgraph : a.graph = n.dependencies r)
  (horder : e.lowered.order = (n.dependencies r).evaluationOrder n r ((n.dependencies r).condense n r))
  (hk : k ∈ (n.dependencies r).links) (hi : (e.steps a)[i]? = some ((n.dependencies r).step k.source))
  (hj : (e.steps a)[j]? = some ((n.dependencies r).step k.target))

include hgraph horder hk hi hj

/-- The step of the source of a link comes first, if the order has to follow the link. -/
theorem lt_of_follows (hcycles : ∀ us, (n.dependencies r).graph.IsCycle us → ∃ u ∈ us, (n.dependencies r).isBoundary n r u = true)
    (hfollows : n.Follows r k) : i < j := by
  have hne : k.source ≠ k.target := by
    intro hself
    obtain ⟨u, hu, hboundary⟩ := hcycles _ (isCycle_of_self_link hk hself)
    obtain rfl := List.mem_singleton.1 hu
    cases hfollows.1.symm.trans hboundary
  have hpairwise := pairwise_follows hcycles
  rw [← horder] at hpairwise
  rw [← hgraph] at hi hj
  exact Emission.lt_of_steps hpairwise hne (fun hback => hback k hk hfollows rfl rfl) hi hj

/-- The step of a bus comes after that of a listener on the same cycle, against the link. -/
theorem lt_of_listens (hkind : k.kind = .listen)
    (hplace : ((n.dependencies r).condense n r).placeOf k.source = ((n.dependencies r).condense n r).placeOf k.target) : j < i := by
  have hne : k.target ≠ k.source := by
    intro hself
    obtain ⟨-, -, hsource, htarget⟩ := link_ends hk
    rw [hself] at htarget
    have hblock := htarget.2 (by rw [hkind]; nofun)
    exact hsource.1 hblock hkind
  have hpairwise := pairwise_listeners (n := n) (r := r)
  rw [← horder] at hpairwise
  rw [← hgraph] at hi hj
  exact Emission.lt_of_steps hpairwise hne (fun hback => hback k hk hkind hplace rfl rfl) hj hi

end Normalized

section

variable {p : Patch} {r : Registry} {options : Options} (hr : r.Loaded)

include hr

/-- The program of a compilation is linked from an emission, and its schedule holds the steps of that emission. -/
theorem schedule_of_linked {l : Linked} (hl : (compile p r options).linked = some l) :
    ∃ (time : Time) (e : Emission), l.program.schedule = e.steps (p.analysis r time)
      ∧ e.lowered.order = (p.analysis r time).graph.evaluationOrder (p.normalize r).1 r (p.analysis r time).cycles := by
  obtain ⟨time, -, hprogram⟩ := passes_of_linked hl
  have hschedule := Regime.schedule_emission (a := p.analysis r time) hr.standard (List.length_map _) (p.normalize r).2 options
  exact ⟨time, _, hprogram ▸ hschedule, (p.analysis r time).order_emission (p.normalize r).2 options⟩

/-- Where a schedule does not follow its links: a listener has its step before the bus, if both are on one cycle. -/
theorem step_of_listener_lt {l : Linked} (hl : (compile p r options).linked = some l) :
    let g := (p.normalize r).1.dependencies r
    let c := g.condense (p.normalize r).1 r
    ∀ k ∈ g.links, k.kind = .listen → c.placeOf k.source = c.placeOf k.target → ∀ i j : Nat,
      l.program.schedule[i]? = some (g.step k.source) → l.program.schedule[j]? = some (g.step k.target) → j < i := by
  intro g c k hk hkind hplace i j hi hj
  obtain ⟨time, e, hschedule, horder⟩ := schedule_of_linked hr hl
  rw [hschedule] at hi hj
  exact Normalized.lt_of_listens rfl horder hk hi hj hkind hplace

end

/-- A compilation without an error returns a program. If every cycle meets a state boundary, its schedule follows each link that does
not lead to a state boundary: the step of the source comes before that of the target. This leaves out links from a bus to a listener on
the same cycle. -/
theorem schedule_follows_links {p : Patch} {r : Registry} {options : Options} (hr : r.Loaded)
    (hcycles : ∀ us, ((p.normalize r).1.dependencies r).graph.IsCycle us →
      ∃ u ∈ us, ((p.normalize r).1.dependencies r).isBoundary (p.normalize r).1 r u = true) :
    (hasErrors (compile p r options).diagnostics = false → ∃ l, (compile p r options).linked = some l) ∧
    ∀ l, (compile p r options).linked = some l →
      let g := (p.normalize r).1.dependencies r
      let c := g.condense (p.normalize r).1 r
      ∀ k ∈ g.links, g.isBoundary (p.normalize r).1 r k.target = false →
        (k.kind = .listen → c.placeOf k.source ≠ c.placeOf k.target) → ∀ i j : Nat,
          l.program.schedule[i]? = some (g.step k.source) → l.program.schedule[j]? = some (g.step k.target) → i < j := by
  refine ⟨exists_linked, ?_⟩
  intro l hl g c k hk hboundary hlisten i j hi hj
  obtain ⟨time, e, hschedule, horder⟩ := schedule_of_linked hr hl
  rw [hschedule] at hi hj
  exact Normalized.lt_of_follows rfl horder hk hi hj hcycles ⟨hboundary, hlisten⟩

/-! ## A bus on a cycle with its listener -/

namespace BusLoop

/-- A sine that is delayed and gets back to itself over a bus. -/
def patch : Patch where
  blocks := [⟨"a", "Sin", {}, {}⟩, ⟨"d", "Delay", {}, {}⟩, ⟨"t", "InfiniteTimeRoot", {}, {}⟩]
  edges := [{ id := "e1", source := .port "d" "out", target := .bus "k" },
    { id := "e2", source := .bus "k", target := .port "a" "in" },
    { id := "e3", source := .port "a" "out", target := .port "d" "in" }]
  buses := [{ id := "k", type := "Signal<float>" }]

def normal : Normalized := ⟨patch.blocks, patch.buses, patch.edges, {}, []⟩

def time : Time := ⟨⟨2⟩, .infinite (.ofInt 10000)⟩

def analysis : Analysis where
  patch := normal
  types := Typing.table normal .builtin
  time := time
  graph := normal.dependencies .builtin
  cycles := ⟨[⟨[0, 1, 3], false, true⟩, ⟨[2], true, true⟩]⟩
  registry := .builtin

/-- The loop is written in normal order. -/
theorem normalize_eq : patch.normalize .builtin = (normal, {}) := by
  have hnormal : patch.Canonical ∧ patch.blocks.zipIdx.flatMap (fun x => Patch.openInputs .builtin patch.edges ⟨x.2⟩ x.1) = [] := by
    decide +kernel
  exact hnormal.1.normalize_eq hnormal.2

def graph : DependencyGraph :=
  ⟨3, 1, [⟨1, 3, .publish, 0, "e1"⟩, ⟨3, 0, .listen, 1, "e2"⟩, ⟨0, 1, .wire, 2, "e3"⟩], ⟨#[[1], [3], [], [0]]⟩⟩

/-- What is known of the loop before its cycle is looked at. -/
theorem checks_eq : normal.dependencies .builtin = graph
    ∧ (List.range 4).map (graph.isBoundary normal .builtin) = [false, true, false, false]
    ∧ graph.condense normal .builtin = analysis.cycles
    ∧ normal.typeDiagnostics .builtin = [] ∧ Time.resolve normal .builtin = .ok time ∧ normal.dependencyDiagnostics .builtin = [] := by
  decide +kernel

theorem dependencies_eq : normal.dependencies .builtin = graph := checks_eq.1

/-- Only the delay is a state boundary. -/
theorem isBoundary_eq :
    (List.range 4).map ((normal.dependencies .builtin).isBoundary normal .builtin) = [false, true, false, false] := by
  rw [dependencies_eq]
  exact checks_eq.2.1

theorem condense_eq : (normal.dependencies .builtin).condense normal .builtin = analysis.cycles := by
  rw [dependencies_eq]
  exact checks_eq.2.2.1

theorem passes : (patch.normalize .builtin).1.Passes .builtin time := by
  rw [normalize_eq]
  have hcycles : (normal.dependencies .builtin).cycleDiagnostics normal .builtin = [] := by
    rw [DependencyGraph.cycleDiagnostics, condense_eq]
    rfl
  obtain ⟨-, -, -, htypes, htime, hdependencies⟩ := checks_eq
  exact ⟨htypes, htime, hdependencies, hcycles⟩

theorem analysis_eq : patch.analysis .builtin time = analysis := by
  rw [Patch.analysis, normalize_eq, condense_eq]
  rfl

/-- The loop is compiled without a word, and the sine has its step before the bus it listens to. -/
theorem compile_eq : (compile patch .builtin {}).diagnostics = [] ∧ ∃ l, (compile patch .builtin {}).linked = some l
    ∧ l.program.schedule = [.block ⟨2⟩, .block ⟨0⟩, .block ⟨1⟩, .bus ⟨0⟩] := by
  obtain ⟨hlinked, hdiagnostics, -⟩ := passes.compile_eq {}
  rw [analysis_eq, normalize_eq] at hlinked hdiagnostics
  have hemission : (analysis.emission {} {}).diagnostics = []
      ∧ (analysis.emission {} {}).linked.program.schedule = [.block ⟨2⟩, .block ⟨0⟩, .block ⟨1⟩, .bus ⟨0⟩] := by
    decide +kernel
  exact ⟨hdiagnostics.trans hemission.1, _, hlinked, hemission.2⟩

/-- Every cycle runs through the delay. -/
theorem exists_boundary {us : List Nat} (h : ((patch.normalize .builtin).1.dependencies .builtin).graph.IsCycle us) :
    ∃ u ∈ us, ((patch.normalize .builtin).1.dependencies .builtin).isBoundary (patch.normalize .builtin).1 .builtin u = true := by
  rw [normalize_eq] at h ⊢
  have hdelay : 1 ∈ us := by
    rw [dependencies_eq] at h
    -- from the sine the only way leads to the delay, and from the bus to the sine
    have hsine : 0 ∈ us → 1 ∈ us := by
      intro hmem
      obtain ⟨v, hv, hedge⟩ := h.exists_successor hmem
      obtain rfl := List.mem_singleton.1 hedge
      exact hv
    have hbus : 3 ∈ us → 0 ∈ us := by
      intro hmem
      obtain ⟨v, hv, hedge⟩ := h.exists_successor hmem
      obtain rfl := List.mem_singleton.1 hedge
      exact hv
    obtain ⟨u, hu⟩ := List.exists_mem_of_ne_nil us h.ne_nil
    obtain ⟨v, -, hedge⟩ := h.exists_successor hu
    match u with
    | 0 => exact hsine hu
    | 1 => exact hu
    | 2 => cases hedge
    | 3 => exact hsine (hbus hu)
    | u + 4 => cases hedge
  exact ⟨1, hdelay, (List.cons.inj (List.cons.inj isBoundary_eq).2).1⟩

end BusLoop

/-- The delay publishes to the bus before the bus has its step, since the bus is no state boundary. -/
theorem schedule_follows_links_busLoop :
    ∃ l, (compile BusLoop.patch .builtin {}).linked = some l ∧
      (∀ us, ((BusLoop.patch.normalize .builtin).1.dependencies .builtin).graph.IsCycle us → ∃ u ∈ us,
        ((BusLoop.patch.normalize .builtin).1.dependencies .builtin).isBoundary (BusLoop.patch.normalize .builtin).1 .builtin u = true)
      ∧ ∀ i j : Nat, l.program.schedule[i]? = some (.block ⟨1⟩) → l.program.schedule[j]? = some (.bus ⟨0⟩) → i < j := by
  obtain ⟨hsilent, -⟩ := BusLoop.compile_eq
  obtain ⟨hexists, hall⟩ := @schedule_follows_links BusLoop.patch .builtin {} .builtin fun _ => BusLoop.exists_boundary
  obtain ⟨l, hl⟩ := hexists (by rw [hsilent]; rfl)
  refine ⟨l, hl, fun _ => BusLoop.exists_boundary, fun i j hi hj => ?_⟩
  have hlinks := hall l hl
  rw [BusLoop.normalize_eq] at hlinks
  have hpublish : ⟨1, 3, .publish, 0, "e1"⟩ ∈ (BusLoop.normal.dependencies .builtin).links := by
    rw [BusLoop.dependencies_eq]
    exact List.mem_cons_self ..
  exact hlinks _ hpublish rfl nofun i j hi hj

/-- The sine is no state boundary and listens to the bus, but it has its step before the bus has one. -/
theorem listener_before_bus_busLoop :
    hasErrors (compile BusLoop.patch .builtin {}).diagnostics = false ∧
    (∀ us, ((BusLoop.patch.normalize .builtin).1.dependencies .builtin).graph.IsCycle us → ∃ u ∈ us,
      ((BusLoop.patch.normalize .builtin).1.dependencies .builtin).isBoundary (BusLoop.patch.normalize .builtin).1 .builtin u = true) ∧
    ∃ l, (compile BusLoop.patch .builtin {}).linked = some l ∧
      let g := (BusLoop.patch.normalize .builtin).1.dependencies .builtin
      ∃ k ∈ g.links, k.kind = .listen ∧ g.isBoundary (BusLoop.patch.normalize .builtin).1 .builtin k.target = false
        ∧ l.program.schedule[1]? = some (g.step k.target) ∧ l.program.schedule[3]? = some (g.step k.source) := by
  obtain ⟨hsilent, l, hl, hschedule⟩ := BusLoop.compile_eq
  refine ⟨by rw [hsilent]; rfl, fun _ => BusLoop.exists_boundary, l, hl, ?_⟩
  rw [hschedule, BusLoop.normalize_eq]
  have hlisten : ⟨3, 0, .listen, 1, "e2"⟩ ∈ (BusLoop.normal.dependencies .builtin).links := by
    rw [BusLoop.dependencies_eq]
    exact List.mem_cons_of_mem _ (List.mem_cons_self ..)
  exact ⟨_, hlisten, rfl, (List.cons.inj BusLoop.isBoundary_eq).1, rfl, rfl⟩

end PatchGraph
