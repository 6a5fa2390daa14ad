import PatchGraph.Proofs.Compile.Runs
import PatchGraph.Proofs.Graph.Edges

/-!
# The stages of a compilation

A compilation that gets through the stages that check its patch is the emission of the patch, and the checks said nothing; otherwise
it has no program and says why the patch was refused (`compile_cases`).
-/

namespace PatchGraph

theorem Stage.required_link : Stage.required .link = Stage.all := by decide +kernel

theorem Stage.mem_all (s : Stage) : s ∈ Stage.all := by cases s <;> decide

/-- The checks come before all other stages. -/
theorem Stage.isFront_before {before after : List Stage} {s t : Stage} (h : Stage.all = before ++ s :: after) (hs : s.isFront = true)
    (ht : t ∈ before) : t.isFront = true := by
  have hall : Stage.all.Pairwise fun t s => s.isFront = true → t.isFront = true := by decide
  rw [h, List.pairwise_append] at hall
  exact hall.2.2 t ht s List.mem_cons_self hs

namespace Job

variable {j : Job} {s : Stage}

/-- A check says nothing but why it refuses the patch. -/
theorem refusalsBy_said (hs : s.isFront = true) (troubled : Bool) : RefusalsBy s (j.said troubled s) := by
  cases s with
  | normalize => exact List.forall_mem_nil _
  | typeGraph => exact (j.normal.1.refusalsAt_typeDiagnostics j.registry).refusalsBy
  | timeTopology =>
    rw [said]
    split
    · exact List.forall_mem_nil _
    · next h => exact List.forall_mem_singleton.2 (Time.refusedBy_of_resolve h).1
  | depGraph => exact (j.normal.1.refusalsAt_dependencyDiagnostics j.registry).refusalsBy
  | cycleCheck => exact DependencyGraph.refusedBy_cycleDiagnostics _ _ _
  | lowerBlocks | lowerBuses | link => cases hs

/-- A check that does not stop a run says nothing. -/
theorem said_eq_nil (hs : s.isFront = true) (hstops : j.stops s = false) : j.said false s = [] := by
  refine (refusalsBy_said hs false).refusals.eq_nil ?_
  rwa [stops, hs, Bool.true_and] at hstops

/-- The checks of a patch have no regard to the options. -/
theorem said_options (hs : s.isFront = true) (p : Patch) (r : Registry) (o o' : Options) :
    (Job.mk p r o).said false s = (Job.mk p r o').said false s := by
  cases s with
  | lowerBlocks | lowerBuses | link => cases hs
  | _ => rfl

theorem stops_options (p : Patch) (r : Registry) (o o' : Options) : (Job.mk p r o).stops = (Job.mk p r o').stops := by
  funext s
  rw [stops, stops]
  cases hs : s.isFront with
  | true => rw [said_options hs p r o o']
  | false => rw [Bool.false_and, Bool.false_and]

/-- A patch is refused by the first check that has something to say, and all that is said is what this check says. -/
theorem executed_of_stops (h : Stage.all.find? j.stops ≠ none) :
    ∃ s, Stage.all.find? j.stops = some s ∧ j.stops s = true ∧ (∀ t ∈ j.executed Stage.all, t.isFront = true)
      ∧ (j.executed Stage.all).flatMap (j.said false) = j.said false s := by
  rcases j.executed_cases Stage.all with ⟨hnone, -⟩ | ⟨before, s, after, hfind, hall, heq, hstops, hbefore⟩
  · exact absurd hnone h
  · have hs : s.isFront = true := (isFront_of_stops hstops false).1
    have hfront : ∀ t ∈ before, t.isFront = true := fun t => Stage.isFront_before hall hs
    refine ⟨s, hfind, hstops, ?_, ?_⟩
    · rw [heq]
      exact List.forall_mem_append.2 ⟨hfront, List.forall_mem_singleton.2 hs⟩
    · have hsilent : before.flatMap (j.said false) = [] :=
        List.flatMap_eq_nil_iff.2 fun t ht => said_eq_nil (hfront t ht) (hbefore t ht)
      rw [heq, List.flatMap_append, hsilent, List.nil_append, List.flatMap_singleton]

/-- If every check lets a patch pass, no stage stops a run. -/
theorem stops_eq_false (h : Stage.all.find? j.stops = none) (s : Stage) : j.stops s = false :=
  Bool.eq_false_iff.2 (List.find?_eq_none.1 h s s.mem_all)

/-- If every check lets a patch pass, a run goes through all of its stages. -/
theorem executed_eq (h : Stage.all.find? j.stops = none) (stages : List Stage) : j.executed stages = stages := by
  rcases j.executed_cases stages with ⟨-, heq⟩ | ⟨_, s, _, -, -, -, hstops, -⟩
  · exact heq
  · cases hstops.symm.trans (stops_eq_false h s)

/-- A run that gets to a stage after the checks has passed all of them. -/
theorem passed_of_executed (hs : s.isFront = false) (h : s ∈ j.executed s.required) : Stage.all.find? j.stops = none := by
  have horder : s.required.Pairwise fun t u => u.isFront = true → t.isFront = true := by
    rw [s.required_eq]
    cases s <;> decide
  have hchecks : ∀ t ∈ Stage.all, t.isFront = true → t ∈ s.required := by
    rw [s.required_eq]
    cases s with
    | lowerBlocks | lowerBuses | link => decide
    | _ => cases hs
  rcases j.executed_cases s.required with ⟨hnone, -⟩ | ⟨before, t, after, -, hsplit, heq, hstops, -⟩
  · refine List.find?_eq_none.2 fun t ht hstops => ?_
    exact List.find?_eq_none.1 hnone t (hchecks t ht (isFront_of_stops hstops false).1) hstops
  · have ht : t.isFront = true := (isFront_of_stops hstops false).1
    rw [heq] at h
    rw [hsplit, List.pairwise_append] at horder
    rcases List.mem_append.1 h with hmem | hmem
    · cases hs.symm.trans (horder.2.2 s hmem t List.mem_cons_self ht)
    · cases hs.symm.trans (List.mem_singleton.1 hmem ▸ ht)

/-- A compilation in terms of its stages: which are executed and what they say. -/
theorem compile_eq (j : Job) : compile j.patch j.registry j.options
    = ⟨if .link ∈ j.executed Stage.all then j.emission?.map (·.linked) else none, (j.executed Stage.all).flatMap (j.said false),
      (Stage.all.find? j.stops).or ((j.executed Stage.all).find? fun s => hasErrors (j.said false s))⟩ := by
  obtain ⟨hrun, -, hfailure⟩ := j.start.underway_run .link
  rw [Stage.required_link, j.job_start] at hrun hfailure
  rw [hrun.failed] at hfailure
  have hlinked : (j.start.run .link).state.artifacts.linked
      = if .link ∈ j.executed Stage.all then j.emission?.map (·.linked) else none := by
    by_cases hlink : .link ∈ j.executed Stage.all
    · rw [if_pos hlink]
      exact hrun.made .link hlink .linked (by decide)
    · rw [if_neg hlink]
      refine hrun.kept .linked (by decide) fun t ht hout => ?_
      cases t with
      | link => exact hlink ht
      | _ => exact absurd hout (by decide)
  have hcompile : compile j.patch j.registry j.options
      = ⟨(j.start.run .link).state.artifacts.linked, (j.start.run .link).state.diagnostics, (j.start.run .link).failure⟩ := rfl
  rw [hcompile, hlinked, hrun.diagnostics, hfailure]
  rfl

end Job

/-- A patch that every check has nothing to say about, and the time it runs on. -/
structure Normalized.Passes (n : Normalized) (r : Registry) (time : Time) : Prop where
  types : n.typeDiagnostics r = []
  time : Time.resolve n r = .ok time
  dependencies : n.dependencyDiagnostics r = []
  cycles : (n.dependencies r).cycleDiagnostics n r = []

/-- A patch passes its checks if and only if none of them stops its compilation. -/
theorem Job.passes_iff (j : Job) : (∃ time, j.normal.1.Passes j.registry time) ↔ Stage.all.find? j.stops = none := by
  constructor
  · rintro ⟨time, h⟩
    rw [List.find?_eq_none]
    intro s _
    cases s <;> simp [stops, said, Stage.isFront, hasErrors, h.types, h.time, h.dependencies, h.cycles]
  · intro h
    obtain ⟨time, htime⟩ := exists_time (stops_eq_false h .timeTopology)
    have htypes : j.said false .typeGraph = [] := said_eq_nil rfl (stops_eq_false h _)
    have hdependencies : j.said false .depGraph = [] := said_eq_nil rfl (stops_eq_false h _)
    have hcycles : j.said false .cycleCheck = [] := said_eq_nil rfl (stops_eq_false h _)
    exact ⟨time, htypes, htime, hdependencies, hcycles⟩

namespace Normalized.Passes

variable {p : Patch} {r : Registry} {time : Time} (h : (p.normalize r).1.Passes r time) (options : Options)

include h

/-- A run of a patch that passes its checks goes through all the stages it needs, and what they make is an emission. -/
theorem underway_run (terminal : Stage) :
    let j : Job := ⟨p, r, options⟩
    j.time? = some time ∧ j.emission? = some ((p.analysis r time).emission (p.normalize r).2 options)
      ∧ Underway j j.start terminal.required (j.start.run terminal).state := by
  intro j
  obtain ⟨hrun, -, -⟩ := j.start.underway_run terminal
  rw [j.job_start, Job.executed_eq (j.passes_iff.1 ⟨time, h⟩)] at hrun
  have htime : j.time? = some time := congrArg Except.toOption h.time
  refine ⟨htime, ?_, hrun⟩
  rw [Job.emission?, htime]
  rfl

/-- The compilation of a patch that passes its checks goes through all stages. -/
theorem underway :
    let j : Job := ⟨p, r, options⟩
    j.emission? = some ((p.analysis r time).emission (p.normalize r).2 options)
      ∧ Underway j j.start Stage.all (j.start.run .link).state := by
  obtain ⟨-, he, hrun⟩ := h.underway_run options .link
  rw [Stage.required_link] at hrun
  exact ⟨he, hrun⟩

/-- What the compilation of a patch that passes its checks keeps of its emission: the lowered blocks, the buses and their slots. -/
theorem artifacts_eq :
    let e := (p.analysis r time).emission (p.normalize r).2 options
    let s := (Compilation.run { patch := p, registry := r, options } .link).state.artifacts
    s.lowered = some e.lowered ∧ s.buses = some e.buses ∧ s.busSlots = some e.slots := by
  intro e s
  obtain ⟨he, hrun⟩ := h.underway options
  have hlowered : s.lowered = _ := hrun.made .lowerBlocks (by decide) .lowered (by decide)
  have hbuses : s.buses = _ := hrun.made .lowerBuses (by decide) .busValues (by decide)
  have hslots : s.busSlots = _ := hrun.made .lowerBlocks (by decide) .busSlots (by decide)
  rw [hlowered, hbuses, hslots]
  simp only [Job.artifacts, he]
  exact ⟨rfl, rfl, rfl⟩

/-- All that is said of it is what is said in its emission. -/
theorem diagnostics_eq : (compile p r options).diagnostics = ((p.analysis r time).emission (p.normalize r).2 options).diagnostics := by
  let j : Job := ⟨p, r, options⟩
  obtain ⟨he, hrun⟩ := h.underway options
  have hstops := Job.stops_eq_false (j.passes_iff.1 ⟨time, h⟩)
  generalize (p.analysis r time).emission (p.normalize r).2 options = e at he
  have he : j.emission? = some e := he
  have hchecks : (Stage.all.filter (·.isFront)).flatMap (j.said false) = [] := by
    refine List.flatMap_eq_nil_iff.2 fun s hs => ?_
    exact Job.said_eq_nil (List.mem_filter.1 hs).2 (hstops s)
  have hall : Stage.all = Stage.all.filter (·.isFront) ++ [.lowerBlocks, .lowerBuses, .link] := by decide
  have hsaid : (compile p r options).diagnostics = Stage.all.flatMap (j.said false) := hrun.diagnostics
  rw [hsaid, hall, List.flatMap_append, hchecks]
  simp [Job.said, he, Emission.diagnostics]

/-- A patch that passes its checks is compiled to its emission. -/
theorem compile_eq :
    let e := (p.analysis r time).emission (p.normalize r).2 options
    (compile p r options).linked = some e.linked ∧ (compile p r options).diagnostics = e.diagnostics
      ∧ (Compilation.run { patch := p, registry := r, options } .link).state.artifacts.lowered = some e.lowered := by
  intro e
  obtain ⟨he, hrun⟩ := h.underway options
  refine ⟨?_, h.diagnostics_eq options, (h.artifacts_eq options).1⟩
  have hlinked : (compile p r options).linked = _ := hrun.made .link (by decide) .linked (by decide)
  rw [hlinked, Job.artifacts, he]
  rfl

/-- The assertions that do not hold are those of the program at its end. -/
theorem breaches_eq :
    breaches p r options = ((p.analysis r time).emission (p.normalize r).2 options).afterLink.builder.breaches := by
  obtain ⟨he, hrun⟩ := h.underway options
  have hbreaches : breaches p r options = _ := hrun.breaches
  rw [hbreaches, Job.breaches, if_pos (by decide), he]
  rfl

end Normalized.Passes

/-! ## Runs up to the buses -/

section Runs

variable {p : Patch} {r : Registry} {options : Options}

/-- A run that gets to the buses has passed all checks. -/
theorem passes_of_buses {buses : List BusOutcome}
    (h : (Compilation.run { patch := p, registry := r, options } .lowerBuses).state.artifacts.buses = some buses) :
    ∃ time, (p.normalize r).1.Passes r time := by
  let j : Job := ⟨p, r, options⟩
  obtain ⟨hrun, -, -⟩ := j.start.underway_run .lowerBuses
  refine j.passes_iff.2 (Job.passed_of_executed (s := .lowerBuses) rfl (Classical.by_contradiction fun hnot => ?_))
  have hnone : (j.start.run .lowerBuses).state.artifacts.buses = none := by
    refine hrun.kept .busValues (by decide) fun s hs hout => ?_
    cases s with
    | lowerBuses => exact hnot hs
    | _ => exact absurd hout (by decide)
  cases hnone.symm.trans h

/-- What is there of a patch that passes its checks when its buses are lowered. -/
theorem Normalized.Passes.run_lowerBuses {time : Time} (h : (p.normalize r).1.Passes r time) (options : Options) :
    let e := (p.analysis r time).emission (p.normalize r).2 options
    let c := (Compilation.run { patch := p, registry := r, options } .lowerBuses).state
    c.artifacts.time = some time ∧ c.artifacts.busSlots = some e.slots ∧ c.artifacts.lowered = some e.lowered
      ∧ c.artifacts.buses = some e.buses ∧ c.builder = some e.afterBuses.builder
      ∧ c.diagnostics = e.afterBlocks.diagnostics ++ e.afterBuses.diagnostics
      ∧ (Compilation.run { patch := p, registry := r, options } .lowerBlocks).state.builder = some e.afterBlocks.builder := by
  intro e c
  let j : Job := ⟨p, r, options⟩
  obtain ⟨htime, he, hrun⟩ := h.underway_run options .lowerBuses
  obtain ⟨-, -, hblocks⟩ := h.underway_run options .lowerBlocks
  have he : j.emission? = some e := he
  have hresolve : Time.resolve j.normal.1 j.registry = .ok time := h.time
  have hmade : ∀ s ∈ Stage.prerequisites .lowerBuses, ∀ x ∈ s.outputs, x.Same c.artifacts (j.artifacts (Stage.required .lowerBuses)) :=
    fun s hs => hrun.made s (Stage.mem_required hs)
  have hartifacts : c.artifacts.time = _ := hmade .timeTopology (by decide) .time (by decide)
  have hslots : c.artifacts.busSlots = _ := hmade .lowerBlocks (by decide) .busSlots (by decide)
  have hlowered : c.artifacts.lowered = _ := hmade .lowerBlocks (by decide) .lowered (by decide)
  have hbuses : c.artifacts.buses = _ := hmade .lowerBuses (by decide) .busValues (by decide)
  have hbuilder := hrun.builder (Stage.mem_required (by decide))
  have hbefore := hblocks.builder (Stage.mem_required (by decide))
  have hsaid := hrun.diagnostics
  rw [Stage.required_eq] at hbuilder hbefore hsaid
  rw [hartifacts, hslots, hlowered, hbuses]
  simp only [Job.artifacts, he]
  refine ⟨htime, rfl, rfl, rfl, hbuilder.trans ?_, hsaid.trans ?_, hbefore.trans ?_⟩
  · exact congrArg (Option.map fun e : Emission => e.afterBuses.builder) he
  · show (Stage.prerequisites .lowerBuses).flatMap (j.said false) = _
    have htypes : j.normal.1.typeDiagnostics j.registry = [] := h.types
    have hdependencies : j.normal.1.dependencyDiagnostics j.registry = [] := h.dependencies
    have hcycles : (j.normal.1.dependencies j.registry).cycleDiagnostics j.normal.1 j.registry = [] := h.cycles
    simp [Stage.prerequisites, Job.said, htypes, hresolve, hdependencies, hcycles, he]
  · exact congrArg (Option.map fun e : Emission => e.afterBlocks.builder) he

end Runs

/-- A patch that does not pass its checks is refused by one of them, in the same way with any options. -/
theorem compile_refused {p : Patch} {r : Registry} (h : ¬∃ time, (p.normalize r).1.Passes r time) :
    ∃ s : Stage, s.isFront = true ∧ hasErrors ((Job.mk p r {}).said false s) = true
      ∧ ∀ options, compile p r options = ⟨none, (Job.mk p r {}).said false s, some s⟩ := by
  let j : Job := ⟨p, r, {}⟩
  obtain ⟨s, hfind, hs, -, -⟩ := Job.executed_of_stops (mt j.passes_iff.2 h)
  obtain ⟨hfront, herrors⟩ := Job.isFront_of_stops hs false
  refine ⟨s, hfront, herrors, fun options => ?_⟩
  let j' : Job := ⟨p, r, options⟩
  have hstops : j'.stops = j.stops := Job.stops_options p r options {}
  obtain ⟨s', hfind', -, hchecks, hsaid⟩ := Job.executed_of_stops (mt j'.passes_iff.2 h)
  have hlink : .link ∉ j'.executed Stage.all := fun hmem => by cases hchecks _ hmem
  have hresult : compile p r options = _ := j'.compile_eq
  rw [hstops, hfind] at hfind'
  obtain rfl := Option.some.inj hfind'
  rw [hresult, hsaid, if_neg hlink, hstops, hfind, Option.some_or, show j'.said false s = _ from Job.said_options hfront p r options {}]

/-- The compilation of a patch that does not pass its checks fails at one of them, and says what this check found. -/
theorem refused_of_not_passes {p : Patch} {r : Registry} (h : ¬∃ time, (p.normalize r).1.Passes r time) (options : Options) :
    let result := compile p r options
    ∃ s, result.failure = some s ∧ result.linked = none ∧ RefusalsBy s result.diagnostics ∧ hasErrors result.diagnostics = true := by
  intro result
  obtain ⟨s, hfront, herrors, hcompile⟩ := compile_refused h
  have hresult : result = _ := hcompile options
  rw [hresult]
  exact ⟨s, rfl, rfl, Job.refusalsBy_said hfront false, herrors⟩

/-- A patch passes its checks, or one of them refused it and there is no program. -/
theorem passes_or_refused (p : Patch) (r : Registry) (options : Options) :
    (∃ time, (p.normalize r).1.Passes r time)
    ∨ ((compile p r options).linked = none ∧ Refusals (compile p r options).diagnostics
      ∧ hasErrors (compile p r options).diagnostics = true) := by
  by_cases h : ∃ time, (p.normalize r).1.Passes r time
  · exact .inl h
  · obtain ⟨s, -, hnone, hrefused, herrors⟩ := refused_of_not_passes h options
    exact .inr ⟨hnone, hrefused.refusals, herrors⟩

/-- A compilation is the emission of its patch, or a check refused the patch and there is no program. -/
theorem compile_cases (p : Patch) (r : Registry) (options : Options) :
    (∃ time e, e = (p.analysis r time).emission (p.normalize r).2 options ∧ (compile p r options).linked = some e.linked
      ∧ (compile p r options).diagnostics = e.diagnostics
      ∧ (Compilation.run { patch := p, registry := r, options } .link).state.artifacts.lowered = some e.lowered)
    ∨ ((compile p r options).linked = none ∧ Refusals (compile p r options).diagnostics) := by
  rcases passes_or_refused p r options with ⟨time, h⟩ | ⟨hnone, hrefused, -⟩
  · exact .inl ⟨time, _, rfl, h.compile_eq options⟩
  · exact .inr ⟨hnone, hrefused⟩

/-- A program that a compilation returns is that of an emission. -/
theorem linked_compile {p : Patch} {r : Registry} {options : Options} {l : Linked} (h : (compile p r options).linked = some l) :
    ∃ time e, e = (p.analysis r time).emission (p.normalize r).2 options ∧ l = e.linked
      ∧ (compile p r options).diagnostics = e.diagnostics
      ∧ (Compilation.run { patch := p, registry := r, options } .link).state.artifacts.lowered = some e.lowered := by
  rcases compile_cases p r options with ⟨time, e, he, hlinked, hrest⟩ | ⟨hnone, -⟩
  · exact ⟨time, e, he, Option.some.inj (h.symm.trans hlinked), hrest⟩
  · cases hnone.symm.trans h

/-- Only a patch that passes its checks gets a program, and that is the one of its emission. -/
theorem passes_of_linked {p : Patch} {r : Registry} {options : Options} {l : Linked} (h : (compile p r options).linked = some l) :
    ∃ time, (p.normalize r).1.Passes r time ∧ l = ((p.analysis r time).emission (p.normalize r).2 options).linked := by
  rcases passes_or_refused p r options with ⟨time, hpasses⟩ | ⟨hnone, -⟩
  · exact ⟨time, hpasses, Option.some.inj (h.symm.trans (hpasses.compile_eq options).1)⟩
  · cases hnone.symm.trans h

/-- A compilation without an error returns a program. -/
theorem exists_linked {p : Patch} {r : Registry} {options : Options} (h : hasErrors (compile p r options).diagnostics = false) :
    ∃ l, (compile p r options).linked = some l := by
  rcases passes_or_refused p r options with ⟨time, hpasses⟩ | ⟨-, -, herrors⟩
  · exact ⟨_, (hpasses.compile_eq options).1⟩
  · cases h.symm.trans herrors

end PatchGraph
