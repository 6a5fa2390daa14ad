import PatchGraph.Proofs.Compile.Emission

/-!
# Runs of a compilation

A compilation can be run again and again, each time up to any stage, and what earlier runs left stays in it. But a run begins with the
patch and makes anew whatever it needs: what a stage makes and says is a function of what is compiled (`Job.artifacts`, `Job.said`),
except that linking does not speak of the verification once there was an error. `Underway` says what is there after some stages of a
run, whatever was there before it; `underway_run` follows a run to its end.
-/

namespace PatchGraph

/-- All that is known about a patch once its time is. -/
def Patch.analysis (p : Patch) (r : Registry) (time : Time) : Analysis where
  patch := (p.normalize r).1
  types := Typing.table (p.normalize r).1 r
  time := time
  graph := (p.normalize r).1.dependencies r
  cycles := ((p.normalize r).1.dependencies r).condense (p.normalize r).1 r
  registry := r

namespace Emission

/-- What is said of the verification: nothing if there is another error. -/
def unverified (e : Emission) : List Diagnostic :=
  if hasErrors e.afterBlocks.diagnostics || hasErrors e.afterBuses.diagnostics || hasErrors e.afterLink.diagnostics
      || e.linked.verify.passes then []
  else [e.linked.verify.diagnostic]

/-- What is said of the verification is told from all else by its code. -/
theorem filter_unverified (e : Emission) : e.unverified.filter (·.code ≠ some .unverified) = [] := by
  unfold unverified
  split <;> rfl

/-- A program that does not pass the verification is an error. -/
theorem isError_of_mem_unverified {e : Emission} {d : Diagnostic} (h : d ∈ e.unverified) : d.isError = true := by
  unfold unverified at h
  split at h
  · cases h
  · exact List.mem_singleton.1 h ▸ rfl

/-- All that is said in an emission. -/
def diagnostics (e : Emission) : List Diagnostic :=
  e.afterBlocks.diagnostics ++ e.afterBuses.diagnostics ++ (e.afterLink.diagnostics ++ e.unverified)

end Emission

/-- An emission up to its options, which only decide how the silent buses are reported, at the very end. -/
theorem Analysis.emission_eq (a : Analysis) (consts : Pool) :
    ∃ (e : Emission) (ds : List Diagnostic), (∀ d ∈ e.afterBlocks.diagnostics ++ e.afterBuses.diagnostics ++ ds, Finding a d)
      ∧ ∀ options, a.emission consts options
        = { e with afterLink := ⟨e.afterLink.builder, ds ++ Linking.busDiagnostics a e.buses options⟩ } := by
  let e := a.emission consts {}
  have hblocks : a.emitBlocks.Says (Finding a) :=
    (Emit.says_build _).bind fun _ => (Emit.says_build _).bind fun slots => (says_lowerBlocks slots).bind fun _ => .pure _
  have hforwards : ∀ f ∈ e.lowered.forwards, ∃ t, a.types.outputType? f.block f.port = some t :=
    fun f hf => (Regime.canForward_lowerBlocks a _ _ f hf).exists_type
  obtain ⟨linked, builder, ds, hds, hlink⟩ := run_link e.slots hforwards e.buses e.afterBuses.builder
  refine ⟨{ e with linked, afterLink := ⟨builder, ds⟩ }, ds, ?_, fun options => ?_⟩
  · exact List.forall_mem_append.2 ⟨List.forall_mem_append.2 ⟨hblocks.all _, (says_lowerBuses _ _).all _⟩, hds⟩
  · have hstages := hlink options
    show Emission.mk e.slots e.lowered e.buses ((a.link e.slots e.lowered e.buses options).run { builder := e.afterBuses.builder }).1
      e.afterBlocks e.afterBuses ((a.link e.slots e.lowered e.buses options).run { builder := e.afterBuses.builder }).2 = _
    rw [hstages]

/-- What is said in an emission, apart from the verification. -/
theorem Analysis.remarks_emission (a : Analysis) (consts : Pool) (options : Options) :
    let e := a.emission consts options
    ∀ d ∈ e.afterBlocks.diagnostics ++ e.afterBuses.diagnostics ++ e.afterLink.diagnostics, Remark a options d := by
  obtain ⟨e, ds, hds, heq⟩ := a.emission_eq consts
  rw [heq options]
  intro _ d hd
  rw [← List.append_assoc] at hd
  rcases List.mem_append.1 hd with hd | hd
  · exact .finding (hds d hd)
  · exact Linking.remark_busDiagnostics hd

/-- The stages of an emission, one by one. -/
structure Emission.Stages (e : Emission) (a : Analysis) (consts : Pool) (options : Options) : Prop where
  blocks : a.emitBlocks.run { builder := { consts } } = ((e.slots, e.lowered), e.afterBlocks)
  buses : (a.lowerBuses e.slots e.lowered).run { builder := e.afterBlocks.builder } = (e.buses, e.afterBuses)
  link : (a.link e.slots e.lowered e.buses options).run { builder := e.afterBuses.builder } = (e.linked, e.afterLink)

/-- An emission is made stage by stage, each with what the one before has left. -/
theorem Analysis.stages_emission (a : Analysis) (consts : Pool) (options : Options) :
    (a.emission consts options).Stages a consts options :=
  ⟨rfl, rfl, rfl⟩

namespace Compilation

variable {c : Compilation} {a : Analysis} {k : Pool} {slots : BusSlots} {lowered : Lowered} {buses : List BusOutcome}
  {linked : Linked} {b : Builder} {w : Workbench}

/-- What the stage of blocks leaves in the compilation. -/
theorem lowerBlocks_of_run (hrun : a.emitBlocks.run { builder := { consts := k } } = ((slots, lowered), w)) :
    c.lowerBlocks a k
      = ({ c with
          artifacts := { c.artifacts with consts := none, busSlots := some slots, lowered := some lowered }
          builder := some w.builder
          breaches := w.builder.breaches }, w.diagnostics) := by
  unfold Analysis.emitBlocks at hrun
  simp only [lowerBlocks, hrun]

/-- What the stage of buses leaves in the compilation. -/
theorem lowerBuses_of_run (hrun : (a.lowerBuses slots lowered).run { builder := b } = (buses, w)) :
    c.lowerBuses a b slots lowered
      = ({ c with
          artifacts := { c.artifacts with buses := some buses }
          builder := some w.builder
          breaches := w.builder.breaches }, w.diagnostics) := by
  simp only [lowerBuses, hrun]

/-- What linking leaves in the compilation. -/
theorem link_of_run (hrun : (a.link slots lowered buses c.options).run { builder := b } = (linked, w)) :
    c.link a b slots lowered buses
      = ({ c with
          artifacts := { c.artifacts with linked := some linked, certificate := some linked.verify }
          builder := none
          breaches := w.builder.breaches },
        w.diagnostics
          ++ if c.hasError || hasErrors w.diagnostics || linked.verify.passes then [] else [linked.verify.diagnostic]) := by
  simp only [link, hrun]

end Compilation

/-! ## What is compiled -/

/-- What a compilation starts from: a patch, the registry it is compiled against and what the caller chose. -/
structure Job where
  patch : Patch
  registry : Registry
  options : Options

/-- What a compilation compiles. -/
def Compilation.job (c : Compilation) : Job := ⟨c.patch, c.registry, c.options⟩

namespace Job

variable (j : Job)

/-- A compilation of which nothing was run. -/
def start : Compilation := { patch := j.patch, registry := j.registry, options := j.options }

/-- The normalized patch and the constants of its defaults. -/
def normal : Normalized × Pool := j.patch.normalize j.registry

/-- The time of the patch, if it has one. -/
def time? : Option Time := (Time.resolve j.normal.1 j.registry).toOption

/-- The emission of the patch, if it has a time. -/
def emission? : Option Emission :=
  j.time?.map fun time => (j.patch.analysis j.registry time).emission j.normal.2 j.options

/-- What the stages make. The constants are taken away when the blocks are lowered. -/
def artifacts (done : List Stage) : Artifacts where
  normalized := some j.normal.1
  consts := if .lowerBlocks ∈ done then none else some j.normal.2
  typed := some (j.normal.1.typed j.registry)
  time := j.time?
  graph := some (j.normal.1.dependencies j.registry)
  cycles := some ((j.normal.1.dependencies j.registry).condense j.normal.1 j.registry)
  busSlots := j.emission?.map (·.slots)
  lowered := j.emission?.map (·.lowered)
  buses := j.emission?.map (·.buses)
  linked := j.emission?.map (·.linked)
  certificate := j.emission?.map (·.linked.verify)

/-- The program that is being made, once the blocks are lowered. -/
def builder? (done : List Stage) : Option Builder :=
  if .link ∈ done then none
  else if .lowerBuses ∈ done then j.emission?.map (·.afterBuses.builder)
  else j.emission?.map (·.afterBlocks.builder)

/-- The assertions that did not hold so far: those of the program that is being made, and those from before until there is one. -/
def breaches (before : List Breach) (done : List Stage) : List Breach :=
  if .link ∈ done then (j.emission?.map (·.afterLink.builder.breaches)).getD []
  else if .lowerBuses ∈ done then (j.emission?.map (·.afterBuses.builder.breaches)).getD []
  else if .lowerBlocks ∈ done then (j.emission?.map (·.afterBlocks.builder.breaches)).getD []
  else before

/-- What a stage says. What the verification finds is left out if there was an error in an earlier run. -/
def said (troubled : Bool) : Stage → List Diagnostic
  | .normalize => []
  | .typeGraph => j.normal.1.typeDiagnostics j.registry
  | .timeTopology =>
    match Time.resolve j.normal.1 j.registry with
    | .ok _ => []
    | .error d => [d]
  | .depGraph => j.normal.1.dependencyDiagnostics j.registry
  | .cycleCheck => (j.normal.1.dependencies j.registry).cycleDiagnostics j.normal.1 j.registry
  | .lowerBlocks => (j.emission?.map (·.afterBlocks.diagnostics)).getD []
  | .lowerBuses => (j.emission?.map (·.afterBuses.diagnostics)).getD []
  | .link => (j.emission?.map fun e => e.afterLink.diagnostics ++ if troubled then [] else e.unverified).getD []

/-- Whether a stage stops a run. -/
def stops (s : Stage) : Bool := s.isFront && hasErrors (j.said false s)

/-- The stages of a run that are executed: all up to the first that stops it. -/
def executed : List Stage → List Stage
  | [] => []
  | s :: rest => s :: if j.stops s then [] else executed rest

theorem job_start : j.start.job = j := rfl

variable {j}

/-- Only linking has regard to earlier runs. -/
theorem said_eq {s : Stage} (h : s ≠ .link) (troubled : Bool) : j.said troubled s = j.said false s := by
  cases s with
  | link => exact absurd rfl h
  | _ => rfl

/-- Whether a check stops a run does not depend on what was said before. -/
theorem stops_eq (troubled : Bool) (s : Stage) : (s.isFront && hasErrors (j.said troubled s)) = j.stops s := by
  cases s <;> rfl

/-- What stops a run is a check with an error to report. -/
theorem isFront_of_stops {s : Stage} (h : j.stops s = true) (troubled : Bool) :
    s.isFront = true ∧ hasErrors (j.said troubled s) = true := by
  rw [← stops_eq troubled, Bool.and_eq_true] at h
  exact h

/-- A run executes all of its stages, or all up to the first that stops it. -/
theorem executed_cases (j : Job) (stages : List Stage) :
    (stages.find? j.stops = none ∧ j.executed stages = stages)
      ∨ ∃ before s after, stages.find? j.stops = some s ∧ stages = before ++ s :: after ∧ j.executed stages = before ++ [s]
        ∧ j.stops s = true ∧ ∀ t ∈ before, j.stops t = false := by
  induction stages with
  | nil => exact .inl ⟨rfl, rfl⟩
  | cons s rest ih =>
    rw [executed, List.find?_cons]
    cases hs : j.stops s with
    | true => exact .inr ⟨[], s, rest, rfl, rfl, rfl, hs, List.forall_mem_nil _⟩
    | false =>
      rcases ih with ⟨hnone, heq⟩ | ⟨before, t, after, hfind, hrest, heq, ht, hbefore⟩
      · exact .inl ⟨hnone, congrArg (List.cons s) heq⟩
      · exact .inr ⟨s :: before, t, after, hfind, congrArg (List.cons s) hrest, congrArg (List.cons s) heq, ht,
          List.forall_mem_cons.2 ⟨hs, hbefore⟩⟩

/-- A patch whose roots of time are not complained about has a time. -/
theorem exists_time (h : j.stops .timeTopology = false) : ∃ time, Time.resolve j.normal.1 j.registry = .ok time := by
  cases hresolve : Time.resolve j.normal.1 j.registry with
  | ok time => exact ⟨time, rfl⟩
  | error d =>
    have herror := (Time.refusedBy_of_resolve hresolve).1.isError
    simp [stops, said, hresolve, Stage.isFront, hasErrors, herror] at h

end Job

/-! ## Artifacts one by one -/

/-- Two compilations have made the same of an artifact. -/
def Artifact.Same (a b : Artifacts) : Artifact → Prop
  | .normalized => a.normalized = b.normalized
  | .consts => a.consts = b.consts
  | .typed => a.typed = b.typed
  | .time => a.time = b.time
  | .graph => a.graph = b.graph
  | .validated => a.cycles = b.cycles
  | .busSlots => a.busSlots = b.busSlots
  | .lowered => a.lowered = b.lowered
  | .busValues => a.buses = b.buses
  | .linked => a.linked = b.linked
  | .cert => a.certificate = b.certificate

/-- If two compilations agree on an artifact with a third one each, they agree with each other. -/
theorem Artifact.Same.trans {a b c : Artifacts} {x : Artifact} (hab : x.Same a b) (hbc : x.Same b c) : x.Same a c := by
  cases x <;> exact Eq.trans hab hbc

theorem Artifact.Same.symm {a b : Artifacts} {x : Artifact} (h : x.Same a b) : x.Same b a := by
  cases x <;> exact Eq.symm h

/-- All but the constants stays as it was made. -/
theorem Job.same_artifacts (j : Job) (before after : List Stage) {x : Artifact} (hx : x ≠ .consts) :
    x.Same (j.artifacts before) (j.artifacts after) := by
  cases x with
  | consts => exact absurd rfl hx
  | _ => rfl

/-! ## The order of a run -/

/-- Each stage comes once, and after all stages that it needs. -/
def Stage.Ordered : List Stage → List Stage → Prop
  | _, [] => True
  | done, s :: rest => s ∉ done ∧ (∀ t ∈ s.required, t = s ∨ t ∈ done) ∧ Ordered (done ++ [s]) rest

instance Stage.Ordered.decidable : (done stages : List Stage) → Decidable (Ordered done stages)
  | _, [] => .isTrue trivial
  | done, s :: rest =>
    have := Ordered.decidable (done ++ [s]) rest
    inferInstanceAs (Decidable (s ∉ done ∧ (∀ t ∈ s.required, t = s ∨ t ∈ done) ∧ Ordered (done ++ [s]) rest))

/-- The stages to run for a stage, written out. -/
def Stage.prerequisites : Stage → List Stage
  | .normalize => [.normalize]
  | .typeGraph => [.normalize, .typeGraph]
  | .timeTopology => [.normalize, .timeTopology]
  | .depGraph => [.normalize, .depGraph]
  | .cycleCheck => [.normalize, .depGraph, .cycleCheck]
  | .lowerBlocks => [.normalize, .typeGraph, .timeTopology, .depGraph, .cycleCheck, .lowerBlocks]
  | .lowerBuses => [.normalize, .typeGraph, .timeTopology, .depGraph, .cycleCheck, .lowerBlocks, .lowerBuses]
  | .link => [.normalize, .typeGraph, .timeTopology, .depGraph, .cycleCheck, .lowerBlocks, .lowerBuses, .link]

/-- The stages that a stage needs, as a table. -/
theorem Stage.required_eq (s : Stage) : s.required = s.prerequisites := by
  cases s <;> decide +kernel

/-- What a stage needs is run for it. -/
theorem Stage.mem_required {s t : Stage} (h : t ∈ s.prerequisites) : t ∈ s.required := s.required_eq ▸ h

/-- No stage is run before those that it needs. -/
theorem Stage.ordered_required (s : Stage) : Ordered [] s.required := by
  cases s <;> decide +kernel

/-- A stage can be executed after others: it is none of them, and all it needs is there. -/
structure Stage.Ready (done : List Stage) (s : Stage) : Prop where
  isNew : s ∉ done
  needs : ∀ t ∈ s.required, t = s ∨ t ∈ done

/-- A stage that is ready has all that it needs. -/
theorem Stage.Ready.mem {done : List Stage} {s t : Stage} (h : s.Ready done) (ht : t ∈ s.required) (hne : t ≠ s) : t ∈ done :=
  (h.needs t ht).resolve_left hne

namespace Job

variable (j : Job) {s : Stage} (hs : s.isFront = true) (done : List Stage)
include hs

/-- The checks of a patch change nothing about its program. -/
theorem mem_append_front {t : Stage} (ht : t.isFront = false) : t ∈ done ++ [s] ↔ t ∈ done := by
  have hne : t ≠ s := by
    rintro rfl
    cases hs.symm.trans ht
  simp [hne]

/-- A check leaves the artifacts of the later stages. -/
theorem artifacts_append_front : j.artifacts (done ++ [s]) = j.artifacts done := by
  simp only [artifacts, mem_append_front hs done (t := .lowerBlocks) rfl]

/-- A check leaves the builder. -/
theorem builder?_append_front : j.builder? (done ++ [s]) = j.builder? done := by
  simp only [builder?, mem_append_front hs done (t := .link) rfl, mem_append_front hs done (t := .lowerBuses) rfl]

/-- A check asserts nothing. -/
theorem breaches_append_front (before : List Breach) : j.breaches before (done ++ [s]) = j.breaches before done := by
  simp only [breaches, mem_append_front hs done (t := .link) rfl, mem_append_front hs done (t := .lowerBuses) rfl,
    mem_append_front hs done (t := .lowerBlocks) rfl]

omit hs in
/-- Checks assert nothing. -/
theorem breaches_of_front {done : List Stage} (h : ∀ s ∈ done, s.isFront = true) (before : List Breach) :
    j.breaches before done = before := by
  have hnot : ∀ s : Stage, s.isFront = false → s ∉ done := fun s hs hmem => by cases hs.symm.trans (h s hmem)
  rw [breaches, if_neg (hnot _ rfl), if_neg (hnot _ rfl), if_neg (hnot _ rfl)]

end Job

/-! ## A run on its way -/

/-- What is there after some stages of a run. What they made is what the job asks for, all else is as it was at the start, and what
they said was taken down. -/
structure Underway (j : Job) (start : Compilation) (done : List Stage) (c : Compilation) : Prop where
  job : c.job = j
  closed : ∀ s ∈ done, ∀ t ∈ s.required, t ∈ done
  made : ∀ s ∈ done, ∀ x ∈ s.outputs, x.Same c.artifacts (j.artifacts done)
  kept : ∀ x ≠ .consts, (∀ s ∈ done, x ∉ s.outputs) → x.Same c.artifacts start.artifacts
  builder : .lowerBlocks ∈ done → c.builder = j.builder? done
  breaches : c.breaches = j.breaches start.breaches done
  diagnostics : c.diagnostics = start.diagnostics ++ done.flatMap (j.said start.hasError)
  hasError : c.hasError = (start.hasError || done.any fun s => hasErrors (j.said start.hasError s))
  failed : c.failed = start.failed.or (done.find? fun s => hasErrors (j.said start.hasError s))

namespace Underway

variable {j : Job} {start c : Compilation} {done : List Stage} {s : Stage}

/-- At the start nothing was done. -/
theorem refl (start : Compilation) : Underway start.job start [] start where
  job := rfl
  closed := List.forall_mem_nil _
  made := List.forall_mem_nil _
  kept := fun x _ _ => by cases x <;> rfl
  builder := fun h => absurd h List.not_mem_nil
  breaches := rfl
  diagnostics := by simp
  hasError := by simp
  failed := by simp

/-- One more stage was executed: it made what the job asks for and left all else alone. -/
theorem add (h : Underway j start done c) (hready : s.Ready done) {artifacts : Artifacts} {builder : Option Builder}
    {breaches : List Breach} (hmade : ∀ x ∈ s.outputs, x.Same artifacts (j.artifacts (done ++ [s])))
    (hother : ∀ x ≠ .consts, x ∉ s.outputs → x.Same artifacts c.artifacts)
    (hconsts : .normalize ∈ done → artifacts.consts = (j.artifacts (done ++ [s])).consts)
    (hbuilder : .lowerBlocks ∈ done ++ [s] → builder = j.builder? (done ++ [s]))
    (hbreaches : breaches = j.breaches start.breaches (done ++ [s])) :
    Underway j start (done ++ [s]) ({ c with artifacts, builder, breaches }.record s (j.said start.hasError s)) where
  job := h.job
  closed := by
    intro t ht u hu
    rcases List.mem_append.1 ht with ht | ht
    · exact List.mem_append_left _ (h.closed t ht u hu)
    · obtain rfl := List.mem_singleton.1 ht
      rcases hready.needs u hu with rfl | hu
      · exact List.mem_append_right _ List.mem_cons_self
      · exact List.mem_append_left _ hu
  made := by
    intro t ht x hx
    rcases List.mem_append.1 ht with ht | ht
    · by_cases hs : x ∈ s.outputs
      · exact hmade x hs
      · by_cases hconst : x = .consts
        · subst hconst
          obtain rfl : t = .normalize := by cases t <;> simp [Stage.outputs] at hx ⊢
          exact hconsts ht
        · exact (hother x hconst hs).trans ((h.made t ht x hx).trans (j.same_artifacts done (done ++ [s]) hconst))
    · obtain rfl := List.mem_singleton.1 ht
      exact hmade x hx
  kept := by
    intro x hx hout
    have hs := hout s (List.mem_append_right _ List.mem_cons_self)
    exact (hother x hx hs).trans (h.kept x hx fun t ht => hout t (List.mem_append_left _ ht))
  builder := hbuilder
  breaches := hbreaches
  diagnostics := by
    simp [Compilation.record, h.diagnostics]
  hasError := by
    simp [Compilation.record, h.hasError, Bool.or_assoc]
  failed := by
    cases hs : hasErrors (j.said start.hasError s) <;> simp [Compilation.record, h.failed, hs, List.find?_append]

/-- The next stage is executed, and says what the job asks for. -/
def Goes (j : Job) (start : Compilation) (done : List Stage) (c : Compilation) (s : Stage) : Prop :=
  ∃ c', c.execute s = some (c', j.said start.hasError s)
    ∧ Underway j start (done ++ [s]) (c'.record s (j.said start.hasError s))

/-! ### Checks -/

/-- A check is made that leaves the constants and the program alone. -/
theorem goes_of_check (h : Underway j start done c) (hready : s.Ready done) (hfront : s.isFront = true) {artifacts : Artifacts}
    (hexecute : c.execute s = some ({ c with artifacts }, j.said start.hasError s))
    (hmade : ∀ x ∈ s.outputs, x.Same artifacts (j.artifacts done)) (hother : ∀ x ∉ s.outputs, x.Same artifacts c.artifacts) :
    Goes j start done c s := by
  have hsame := j.artifacts_append_front hfront done
  refine ⟨_, hexecute, h.add hready (hsame ▸ hmade) (fun x _ => hother x) (fun hnormal => ?_) (fun hblocks => ?_) ?_⟩
  · rw [hsame]
    by_cases hs : .consts ∈ s.outputs
    · exact hmade .consts hs
    · exact (hother .consts hs).trans (h.made .normalize hnormal .consts (by decide))
  · rw [j.builder?_append_front hfront]
    exact h.builder ((Job.mem_append_front hfront done rfl).1 hblocks)
  · rw [j.breaches_append_front hfront]
    exact h.breaches

/-- After normalizing, the normalized patch is there. -/
theorem normalized (h : Underway j start done c) (hs : .normalize ∈ done) : c.artifacts.normalized = some j.normal.1 :=
  h.made .normalize hs .normalized (by decide)

/-- After the stage that makes it, the dependency graph is there. -/
theorem graph (h : Underway j start done c) (hs : .depGraph ∈ done) :
    c.artifacts.graph = some (j.normal.1.dependencies j.registry) :=
  h.made .depGraph hs .graph (by decide)

/-- Normalizing goes on from any state of a run. -/
theorem goes_normalize (h : Underway j start done c) (hready : Stage.Ready done .normalize) : Goes j start done c .normalize := by
  obtain rfl := h.job
  have hblocks : .lowerBlocks ∉ done := fun hmem => hready.isNew (h.closed _ hmem _ (Stage.mem_required (by decide)))
  refine h.goes_of_check hready rfl rfl ?_ fun x hx => ?_
  · exact List.forall_mem_cons.2 ⟨rfl, List.forall_mem_singleton.2 (if_neg hblocks).symm⟩
  · cases x with
    | normalized | consts => exact absurd (by decide) hx
    | _ => rfl

/-- The check of types goes on from the normalized patch. -/
theorem goes_typeGraph (h : Underway j start done c) (hready : Stage.Ready done .typeGraph) : Goes j start done c .typeGraph := by
  obtain rfl := h.job
  have hnormal := h.normalized (hready.mem (Stage.mem_required (by decide)) (by decide))
  have hexecute : c.execute .typeGraph = some (c.typeGraph c.job.normal.1) := by
    rw [Compilation.execute, hnormal]
    rfl
  refine h.goes_of_check hready rfl hexecute (List.forall_mem_singleton.2 rfl) fun x hx => ?_
  cases x with
  | typed => exact absurd (by decide) hx
  | _ => rfl

/-- The check of time goes on from the normalized patch. -/
theorem goes_timeTopology (h : Underway j start done c) (hready : Stage.Ready done .timeTopology) :
    Goes j start done c .timeTopology := by
  obtain rfl := h.job
  have hnormal := h.normalized (hready.mem (Stage.mem_required (by decide)) (by decide))
  have hexecute : c.execute .timeTopology
      = some ({ c with artifacts := { c.artifacts with time := c.job.time? } }, c.job.said start.hasError .timeTopology) := by
    rw [Compilation.execute, hnormal]
    show some (c.timeTopology c.job.normal.1) = _
    rw [Compilation.timeTopology, Job.time?, Job.said, show c.job.registry = c.registry from rfl]
    cases Time.resolve c.job.normal.1 c.registry <;> rfl
  refine h.goes_of_check hready rfl hexecute (List.forall_mem_singleton.2 rfl) fun x hx => ?_
  cases x with
  | time => exact absurd (by decide) hx
  | _ => rfl

/-- The dependency graph is made of the normalized patch. -/
theorem goes_depGraph (h : Underway j start done c) (hready : Stage.Ready done .depGraph) : Goes j start done c .depGraph := by
  obtain rfl := h.job
  have hnormal := h.normalized (hready.mem (Stage.mem_required (by decide)) (by decide))
  have hexecute : c.execute .depGraph = some (c.depGraph c.job.normal.1) := by
    rw [Compilation.execute, hnormal]
    rfl
  refine h.goes_of_check hready rfl hexecute (List.forall_mem_singleton.2 rfl) fun x hx => ?_
  cases x with
  | graph => exact absurd (by decide) hx
  | _ => rfl

/-- The check of cycles goes on from the dependency graph. -/
theorem goes_cycleCheck (h : Underway j start done c) (hready : Stage.Ready done .cycleCheck) : Goes j start done c .cycleCheck := by
  obtain rfl := h.job
  have hnormal := h.normalized (hready.mem (Stage.mem_required (by decide)) (by decide))
  have hgraph := h.graph (hready.mem (Stage.mem_required (by decide)) (by decide))
  have hexecute : c.execute .cycleCheck = some (c.cycleCheck c.job.normal.1 (c.job.normal.1.dependencies c.registry)) := by
    rw [Compilation.execute, hnormal, hgraph]
    rfl
  refine h.goes_of_check hready rfl hexecute (List.forall_mem_singleton.2 rfl) fun x hx => ?_
  cases x with
  | validated => exact absurd (by decide) hx
  | _ => rfl

/-! ### Emission -/

/-- All that is known about the patch is there once its checks were made. -/
theorem analysis (h : Underway j start done c) (hchecks : ∀ t ∈ Stage.required .lowerBlocks, t ≠ .lowerBlocks → t ∈ done) {time : Time}
    (htime : j.time? = some time) : c.artifacts.analysis? c.registry = some (j.patch.analysis j.registry time) := by
  have hnormal := h.normalized (hchecks _ (Stage.mem_required (by decide)) (by decide))
  have htyped : c.artifacts.typed = _ := h.made .typeGraph (hchecks _ (Stage.mem_required (by decide)) (by decide)) .typed (by decide)
  have htimed : c.artifacts.time = _ := h.made .timeTopology (hchecks _ (Stage.mem_required (by decide)) (by decide)) .time (by decide)
  have hgraph := h.graph (hchecks _ (Stage.mem_required (by decide)) (by decide))
  have hcycles : c.artifacts.cycles = _ :=
    h.made .cycleCheck (hchecks _ (Stage.mem_required (by decide)) (by decide)) .validated (by decide)
  obtain rfl := h.job
  rw [Artifacts.analysis?, hnormal, htyped, htimed, hgraph, hcycles]
  simp only [Job.artifacts, htime]
  rfl

/-- There is an emission once the time was found. -/
theorem exists_emission (hsound : ∀ t ∈ done, j.stops t = false) (htime : .timeTopology ∈ done) :
    ∃ time e, j.time? = some time ∧ j.emission? = some e
      ∧ e.Stages (j.patch.analysis j.registry time) j.normal.2 j.options := by
  obtain ⟨time, hresolve⟩ := Job.exists_time (hsound _ htime)
  have htime? : j.time? = some time := by
    rw [Job.time?, hresolve]
    rfl
  refine ⟨time, (j.patch.analysis j.registry time).emission j.normal.2 j.options, htime?, ?_, Analysis.stages_emission _ _ _⟩
  rw [Job.emission?, htime?]
  rfl

/-- Blocks are lowered once no check stops the run. -/
theorem goes_lowerBlocks (h : Underway j start done c) (hready : Stage.Ready done .lowerBlocks)
    (hsound : ∀ t ∈ done, j.stops t = false) : Goes j start done c .lowerBlocks := by
  have hlater : ∀ t : Stage, .lowerBlocks ∈ t.required → t ∉ done := fun t ht hmem => hready.isNew (h.closed t hmem _ ht)
  have hnormal : .normalize ∈ done := hready.mem (Stage.mem_required (by decide)) (by decide)
  obtain ⟨time, e, htime, he, hstages⟩ := exists_emission hsound (hready.mem (Stage.mem_required (by decide)) (by decide))
  have hsaid : j.said start.hasError .lowerBlocks = e.afterBlocks.diagnostics := by rw [Job.said, he]; rfl
  have hconsts : c.artifacts.consts = some j.normal.2 :=
    Eq.trans (h.made .normalize hnormal .consts (by decide)) (if_neg hready.isNew)
  have hexecute : c.execute .lowerBlocks = some (c.lowerBlocks (j.patch.analysis j.registry time) j.normal.2) := by
    rw [Compilation.execute, h.analysis (fun t => hready.mem) htime, hconsts]
    rfl
  rw [Compilation.lowerBlocks_of_run hstages.blocks, ← hsaid] at hexecute
  refine ⟨_, hexecute, h.add hready ?_ (fun x hx hout => ?_) (fun _ => ?_) (fun _ => ?_) ?_⟩
  · simp [Stage.outputs, Artifact.Same, Job.artifacts, he]
  · cases x with
    | consts => exact absurd rfl hx
    | busSlots | lowered => exact absurd (by decide) hout
    | _ => rfl
  · simp [Job.artifacts]
  · simp [Job.builder?, he, hlater .link (Stage.mem_required (by decide)), hlater .lowerBuses (Stage.mem_required (by decide))]
  · simp [Job.breaches, he, hlater .link (Stage.mem_required (by decide)), hlater .lowerBuses (Stage.mem_required (by decide))]

/-- The slots of the buses and the outcomes of the blocks, once the blocks were lowered. -/
theorem lowered (h : Underway j start done c) (hblocks : .lowerBlocks ∈ done) {e : Emission} (he : j.emission? = some e) :
    c.artifacts.busSlots = some e.slots ∧ c.artifacts.lowered = some e.lowered := by
  have hslots : c.artifacts.busSlots = (j.artifacts done).busSlots := h.made .lowerBlocks hblocks .busSlots (by decide)
  have hlowered : c.artifacts.lowered = (j.artifacts done).lowered := h.made .lowerBlocks hblocks .lowered (by decide)
  rw [hslots, hlowered, Job.artifacts, he]
  exact ⟨rfl, rfl⟩

/-- Buses are lowered after the blocks. -/
theorem goes_lowerBuses (h : Underway j start done c) (hready : Stage.Ready done .lowerBuses)
    (hsound : ∀ t ∈ done, j.stops t = false) : Goes j start done c .lowerBuses := by
  have hlink : .link ∉ done := fun hmem => hready.isNew (h.closed _ hmem _ (Stage.mem_required (by decide)))
  have hblocks : .lowerBlocks ∈ done := hready.mem (Stage.mem_required (by decide)) (by decide)
  obtain ⟨time, e, htime, he, hstages⟩ := exists_emission hsound (hready.mem (Stage.mem_required (by decide)) (by decide))
  have hsaid : j.said start.hasError .lowerBuses = e.afterBuses.diagnostics := by rw [Job.said, he]; rfl
  have hbuilder : c.builder = some e.afterBlocks.builder := by
    rw [h.builder hblocks, Job.builder?, if_neg hlink, if_neg hready.isNew, he]
    rfl
  obtain ⟨hslots, hlowered⟩ := h.lowered hblocks he
  have hexecute : c.execute .lowerBuses
      = some (c.lowerBuses (j.patch.analysis j.registry time) e.afterBlocks.builder e.slots e.lowered) := by
    rw [Compilation.execute, h.analysis (fun t ht _ => h.closed _ hblocks t ht) htime, hbuilder, hslots, hlowered]
    rfl
  rw [Compilation.lowerBuses_of_run hstages.buses, ← hsaid] at hexecute
  refine ⟨_, hexecute, h.add hready ?_ (fun x _ hout => ?_) (fun hnormal => ?_) (fun _ => ?_) ?_⟩
  · simp [Stage.outputs, Artifact.Same, Job.artifacts, he]
  · cases x with
    | busValues => exact absurd (by decide) hout
    | _ => rfl
  · have hconsts : c.artifacts.consts = _ := h.made .normalize hnormal .consts (by decide)
    simpa [Job.artifacts] using hconsts
  · simp [Job.builder?, he, hlink]
  · simp [Job.breaches, he, hlink]

/-- The errors before linking are those of earlier runs and those of lowering. -/
theorem hasError_of_lowered (h : Underway j start done c) (hblocks : .lowerBlocks ∈ done) (hbuses : .lowerBuses ∈ done)
    (hlink : .link ∉ done) (hsound : ∀ t ∈ done, j.stops t = false) :
    c.hasError = (start.hasError
      || (hasErrors (j.said start.hasError .lowerBlocks) || hasErrors (j.said start.hasError .lowerBuses))) := by
  rw [h.hasError]
  congr 1
  rw [Bool.eq_iff_iff, List.any_eq_true, Bool.or_eq_true]
  constructor
  · rintro ⟨s, hs, herror⟩
    have hstops := hsound s hs
    rw [← Job.stops_eq start.hasError, herror, Bool.and_true] at hstops
    cases s with
    | lowerBlocks => exact .inl herror
    | lowerBuses => exact .inr herror
    | link => exact absurd hs hlink
    | _ => cases hstops
  · rintro (herror | herror)
    · exact ⟨_, hblocks, herror⟩
    · exact ⟨_, hbuses, herror⟩

/-- The program is linked after the buses. -/
theorem goes_link (h : Underway j start done c) (hready : Stage.Ready done .link)
    (hsound : ∀ t ∈ done, j.stops t = false) : Goes j start done c .link := by
  have hblocks : .lowerBlocks ∈ done := hready.mem (Stage.mem_required (by decide)) (by decide)
  have hbuses : .lowerBuses ∈ done := hready.mem (Stage.mem_required (by decide)) (by decide)
  obtain ⟨time, e, htime, he, hstages⟩ := exists_emission hsound (hready.mem (Stage.mem_required (by decide)) (by decide))
  have herror := h.hasError_of_lowered hblocks hbuses hready.isNew hsound
  have hbuilder : c.builder = some e.afterBuses.builder := by
    rw [h.builder hblocks, Job.builder?, if_neg hready.isNew, if_pos hbuses, he]
    rfl
  obtain ⟨hslots, hlowered⟩ := h.lowered hblocks he
  have hvalues : c.artifacts.buses = some e.buses := by
    rw [show c.artifacts.buses = _ from h.made .lowerBuses hbuses .busValues (by decide), Job.artifacts, he]
    rfl
  have hexecute : c.execute .link
      = some (c.link (j.patch.analysis j.registry time) e.afterBuses.builder e.slots e.lowered e.buses) := by
    rw [Compilation.execute, h.analysis (fun t ht _ => h.closed _ hblocks t ht) htime, hbuilder, hslots, hlowered, hvalues]
    rfl
  have hoptions : c.options = j.options := congrArg Job.options h.job
  have hsaid : j.said start.hasError .link = e.afterLink.diagnostics
      ++ if c.hasError || hasErrors e.afterLink.diagnostics || e.linked.verify.passes then [] else [e.linked.verify.diagnostic] := by
    rw [herror]
    simp only [Job.said, he, Option.map_some, Option.getD_some, Emission.unverified]
    cases start.hasError <;> rfl
  rw [Compilation.link_of_run (hoptions ▸ hstages.link), ← hsaid] at hexecute
  refine ⟨_, hexecute, h.add hready ?_ (fun x _ hout => ?_) (fun hnormal => ?_) (fun _ => ?_) ?_⟩
  · simp [Stage.outputs, Artifact.Same, Job.artifacts, he]
  · cases x with
    | linked | cert => exact absurd (by decide) hout
    | _ => rfl
  · have hconsts : c.artifacts.consts = _ := h.made .normalize hnormal .consts (by decide)
    simpa [Job.artifacts] using hconsts
  · simp [Job.builder?]
  · simp [Job.breaches, he]

/-! ### From stage to stage -/

/-- Whatever stage comes next, if all it needs was made in this run, it is executed. -/
theorem goes (h : Underway j start done c) (hready : s.Ready done) (hsound : ∀ t ∈ done, j.stops t = false) :
    Goes j start done c s := by
  cases s with
  | normalize => exact h.goes_normalize hready
  | typeGraph => exact h.goes_typeGraph hready
  | timeTopology => exact h.goes_timeTopology hready
  | depGraph => exact h.goes_depGraph hready
  | cycleCheck => exact h.goes_cycleCheck hready
  | lowerBlocks => exact h.goes_lowerBlocks hready hsound
  | lowerBuses => exact h.goes_lowerBuses hready hsound
  | link => exact h.goes_link hready hsound

/-- A run of stages goes on up to the first check that stops it. -/
theorem runStages {stages : List Stage} (h : Underway j start done c) (hordered : Stage.Ordered done stages)
    (hsound : ∀ t ∈ done, j.stops t = false) :
    Underway j start (done ++ j.executed stages) (Compilation.runStages stages c).state
      ∧ (Compilation.runStages stages c).passes = (j.executed stages).map (fun s => (s, j.said start.hasError s))
      ∧ (Compilation.runStages stages c).failure = (stages.find? j.stops).or (Compilation.runStages stages c).state.failed := by
  induction stages generalizing done c with
  | nil => exact ⟨by simpa [Job.executed, Compilation.runStages] using h, rfl, rfl⟩
  | cons s rest ih =>
    obtain ⟨hnew, hneeds, hordered⟩ := hordered
    obtain ⟨c', hexecute, hc'⟩ := h.goes ⟨hnew, hneeds⟩ hsound
    rw [Compilation.runStages, hexecute]
    simp only [Job.stops_eq, Job.executed, List.find?_cons]
    cases hstops : j.stops s with
    | true => exact ⟨hc', rfl, rfl⟩
    | false =>
      have hsound' : ∀ t ∈ done ++ [s], j.stops t = false :=
        List.forall_mem_append.2 ⟨hsound, List.forall_mem_singleton.2 hstops⟩
      obtain ⟨hstate, hpasses, hfailure⟩ := ih hc' hordered hsound'
      rw [List.append_assoc, List.singleton_append] at hstate
      simp only [Bool.false_eq_true, if_false]
      exact ⟨hstate, congrArg (List.cons _) hpasses, hfailure⟩

end Underway

/-- Whatever was run before, a run executes the stages that its last one needs, up to a check that stops it. -/
theorem Compilation.underway_run (c : Compilation) (terminal : Stage) :
    Underway c.job c (c.job.executed terminal.required) (c.run terminal).state
      ∧ (c.run terminal).passes = (c.job.executed terminal.required).map (fun s => (s, c.job.said c.hasError s))
      ∧ (c.run terminal).failure = (terminal.required.find? c.job.stops).or (c.run terminal).state.failed :=
  (Underway.refl c).runStages terminal.ordered_required (List.forall_mem_nil _)

end PatchGraph
