import PatchGraph.Proofs.Compile.Outcome
import PatchGraph.Proofs.Registry.Reload

/-!
# Origins do not matter

A compilation looks up declarations, lowerings and rules in its registry, but never asks where they came from: stage by stage, all that
is made and said is the same when every origin is replaced (`compile_withOrigin`). So the canonical text of a registry determines all
compilations against it (`canonicalText_determines`).
-/

namespace PatchGraph

variable (r : Registry) (origin : String)

/-! ## Checks -/

namespace Normalized

variable (n : Normalized)

/-- The declaration of a block is found by its type alone. -/
@[simp] theorem decl?_withOrigin (b : BlockIx) : n.decl? (r.withOrigin origin) b = n.decl? r b := by
  simp only [decl?, Registry.decl?_withOrigin]

/-- Whether a block is a state boundary is declared, whoever declares it. -/
@[simp] theorem isBoundary_withOrigin : n.isBoundary (r.withOrigin origin) = n.isBoundary r := by
  funext b
  simp only [isBoundary, decl?_withOrigin]

end Normalized

/-- Normalizing reads the declared inputs and their defaults, and no origin. -/
@[simp] theorem Patch.normalize_withOrigin (p : Patch) : p.normalize (r.withOrigin origin) = p.normalize r := by
  simp only [normalize, openInputs, Registry.decl?_withOrigin]

namespace Typing

/-- The check of blocks looks at declarations only. -/
@[simp] theorem blockDiagnostics_withOrigin : blockDiagnostics (r.withOrigin origin) = blockDiagnostics r := by
  funext b
  simp only [blockDiagnostics, Registry.decl?_withOrigin]

/-- The types of ports are those of the declarations. -/
@[simp] theorem table_withOrigin (n : Normalized) : table n (r.withOrigin origin) = table n r := by
  simp only [table, Registry.decl?_withOrigin]

/-- A step of an edge is known or not, wherever it comes from. -/
@[simp] theorem stepDiagnostics_withOrigin (e : Edge) : stepDiagnostics (r.withOrigin origin) e = stepDiagnostics r e := by
  simp only [stepDiagnostics, Registry.transform?_withOrigin, Option.isSome_map]

/-- The type behind adapters is the one they are declared with. -/
@[simp] theorem adaptedType_withOrigin (t : ValueType) (adapters : List Step) :
    adaptedType (r.withOrigin origin) t adapters = adaptedType r t adapters := by
  unfold adaptedType
  congr 1
  funext t s
  rw [Registry.transform?_withOrigin]
  cases r.transform? .adapter s.id <;> rfl

/-- The check of an edge compares declared types. -/
@[simp] theorem edgeDiagnostics_withOrigin (n : Normalized) : edgeDiagnostics n (r.withOrigin origin) = edgeDiagnostics n r := by
  funext t e
  simp only [edgeDiagnostics, stepDiagnostics_withOrigin, adaptedType_withOrigin]

end Typing

/-- A block is a time root by its declaration. -/
@[simp] theorem Time.resolve_withOrigin (n : Normalized) : resolve n (r.withOrigin origin) = resolve n r := by
  simp only [resolve, roots, Registry.decl?_withOrigin]

namespace Normalized

variable (n : Normalized)

/-- The check of types never asks for an origin. -/
@[simp] theorem typeDiagnostics_withOrigin : n.typeDiagnostics (r.withOrigin origin) = n.typeDiagnostics r := by
  simp only [typeDiagnostics, Typing.blockDiagnostics_withOrigin, Typing.table_withOrigin, Typing.edgeDiagnostics_withOrigin]

/-- An end is a node of the graph if its port is declared. -/
@[simp] theorem endNode_withOrigin (side : Side) (e : Endpoint) : n.endNode (r.withOrigin origin) side e = n.endNode r side e := by
  cases e <;> simp only [endNode, decl?_withOrigin]

/-- The dependency graph does not depend on origins. -/
@[simp] theorem dependencies_withOrigin : n.dependencies (r.withOrigin origin) = n.dependencies r := by
  simp only [dependencies, link?, endNode_withOrigin]

/-- The check of ends never asks for an origin. -/
@[simp] theorem linkDiagnostics_withOrigin : n.linkDiagnostics (r.withOrigin origin) = n.linkDiagnostics r := by
  funext e
  simp only [linkDiagnostics, endDiagnostics, endNode_withOrigin]

/-- The stage that makes the dependency graph says the same. -/
@[simp] theorem dependencyDiagnostics_withOrigin : n.dependencyDiagnostics (r.withOrigin origin) = n.dependencyDiagnostics r := by
  simp only [dependencyDiagnostics, linkDiagnostics_withOrigin]

end Normalized

namespace DependencyGraph

variable (g : DependencyGraph) (n : Normalized)

/-- A component is judged by its state boundaries. -/
@[simp] theorem component_withOrigin : g.component n (r.withOrigin origin) = g.component n r := by
  funext nodes
  simp only [component, hasBoundary, Normalized.isBoundary_withOrigin]

/-- The components of the dependency graph stay as they are. -/
@[simp] theorem condense_withOrigin : g.condense n (r.withOrigin origin) = g.condense n r := by
  simp only [condense, component_withOrigin]

/-- The check of cycles never asks for an origin. -/
@[simp] theorem cycleDiagnostics_withOrigin : g.cycleDiagnostics n (r.withOrigin origin) = g.cycleDiagnostics n r := by
  simp only [cycleDiagnostics, condense_withOrigin]

/-- Blocks are lowered in the same order. -/
@[simp] theorem evaluationOrder_withOrigin (c : Condensation) :
    g.evaluationOrder n (r.withOrigin origin) c = g.evaluationOrder n r c := by
  simp only [evaluationOrder, cycleOrder, countedWires, isBoundary, Normalized.isBoundary_withOrigin]

end DependencyGraph

/-! ## Steps of edges -/

/-- A step is carried out by the rule that stands under its name. -/
@[simp] theorem Registry.applyStep_withOrigin : (r.withOrigin origin).applyStep = r.applyStep := by
  funext kind s v
  have hbind : ((r.withOrigin origin).transform? kind s.id).bind (·.transform) = (r.transform? kind s.id).bind (·.transform) := by
    rw [transform?_withOrigin]
    cases r.transform? kind s.id <;> rfl
  simp only [applyStep, hbind]

/-- The steps of one kind are carried out by the same rules. -/
@[simp] theorem Registry.applySteps_withOrigin : (r.withOrigin origin).applySteps = r.applySteps := by
  funext kind steps
  induction steps with
  | nil => rfl
  | cons s rest ih =>
    funext v
    simp only [applySteps, applyStep_withOrigin, ih]

/-- All steps of an edge are carried out by the same rules. -/
@[simp] theorem Registry.applyChain_withOrigin : (r.withOrigin origin).applyChain = r.applyChain := by
  funext e v
  simp only [applyChain, applySteps_withOrigin]

/-- The term of a writer is finished in the same way. -/
@[simp] theorem finishTerm_withOrigin : finishTerm (r.withOrigin origin) = finishTerm r := by
  funext edge t v
  simp only [finishTerm, Registry.applyChain_withOrigin]

/-! ## Emission -/

/-- The analysis against a registry whose declarations all come from one origin. -/
def Analysis.withOrigin (a : Analysis) (origin : String) : Analysis := { a with registry := a.registry.withOrigin origin }

variable (a : Analysis)

namespace Analysis

@[simp] theorem patch_withOrigin : (a.withOrigin origin).patch = a.patch := rfl

@[simp] theorem types_withOrigin : (a.withOrigin origin).types = a.types := rfl

@[simp] theorem time_withOrigin : (a.withOrigin origin).time = a.time := rfl

@[simp] theorem graph_withOrigin : (a.withOrigin origin).graph = a.graph := rfl

@[simp] theorem cycles_withOrigin : (a.withOrigin origin).cycles = a.cycles := rfl

@[simp] theorem registry_withOrigin : (a.withOrigin origin).registry = a.registry.withOrigin origin := rfl

@[simp] theorem edge?_withOrigin : (a.withOrigin origin).edge? = a.edge? := rfl

/-- The entry of a block is the same but for its origin. -/
@[simp] theorem entry?_withOrigin (b : BlockIx) : entry? (a.withOrigin origin) b = (a.entry? b).map (·.withOrigin origin) := by
  unfold entry?
  simp only [patch_withOrigin, registry_withOrigin, Registry.block?_withOrigin]
  cases a.patch.block? b <;> rfl

/-- A block has the lowering of its entry, whatever the origin. -/
@[simp] theorem lowering?_withOrigin (b : BlockIx) : (a.withOrigin origin).lowering? b = a.lowering? b := by
  rw [lowering?, lowering?, entry?_withOrigin]
  cases a.entry? b <;> rfl

end Analysis

namespace Visit

/-- The value of a writer depends on types and lowerings alone. -/
@[simp] theorem source_withOrigin : source (a.withOrigin origin) = source a := by
  funext slots t w
  cases w <;> simp only [source, sourceOutput, Analysis.types_withOrigin, Analysis.lowering?_withOrigin]

/-- The term of a writer does not depend on origins. -/
@[simp] theorem term_withOrigin : term (a.withOrigin origin) = term a := by
  funext slots t w
  simp only [term, source_withOrigin, Analysis.registry_withOrigin, Analysis.edge?_withOrigin, finishTerm_withOrigin]

/-- Nor do the terms of several writers. -/
@[simp] theorem terms_withOrigin : terms (a.withOrigin origin) = terms a := by
  funext slots t ws
  induction ws with
  | nil => rfl
  | cons w rest ih => simp only [terms, term_withOrigin, ih]

/-- An input is resolved in the same way. -/
@[simp] theorem resolveInput_withOrigin : resolveInput (a.withOrigin origin) = resolveInput a := by
  funext slots b input
  simp only [resolveInput, Analysis.types_withOrigin, Analysis.patch_withOrigin, terms_withOrigin]

/-- So are the inputs of a block, one after the other. -/
@[simp] theorem resolveInputs_withOrigin : resolveInputs (a.withOrigin origin) = resolveInputs a := by
  funext slots b inputs
  induction inputs with
  | nil => rfl
  | cons input rest ih =>
    funext done
    simp only [resolveInputs, resolveInput_withOrigin, ih]

/-- To lower a block takes its declaration and its lowering from the entry, and not the origin. -/
@[simp] theorem lowerBlock_withOrigin : lowerBlock (a.withOrigin origin) = lowerBlock a := by
  funext slots ix
  simp only [lowerBlock, Analysis.patch_withOrigin, Analysis.entry?_withOrigin, Analysis.lowering?_withOrigin,
    Analysis.types_withOrigin, Analysis.time_withOrigin, resolveInputs_withOrigin]
  cases a.patch.block? ix <;> cases a.entry? ix <;> cases a.lowering? ix <;> cases a.types.ports? ix <;> rfl

/-- The nodes of the graph are lowered in the same way. -/
@[simp] theorem lowerNodes_withOrigin : lowerNodes (a.withOrigin origin) = lowerNodes a := by
  funext slots nodes
  induction nodes with
  | nil => rfl
  | cons u rest ih => simp only [lowerNodes, Analysis.graph_withOrigin, lowerBlock_withOrigin, ih]

end Visit

/-- All blocks are lowered in the same order and in the same way. -/
@[simp] theorem Analysis.lowerBlocks_withOrigin : (a.withOrigin origin).lowerBlocks = a.lowerBlocks := by
  funext slots
  simp only [lowerBlocks, graph_withOrigin, patch_withOrigin, registry_withOrigin, cycles_withOrigin,
    DependencyGraph.evaluationOrder_withOrigin, Visit.lowerNodes_withOrigin]

/-- What is emitted for blocks does not depend on origins. -/
@[simp] theorem Analysis.emitBlocks_withOrigin : (a.withOrigin origin).emitBlocks = a.emitBlocks := by
  simp only [emitBlocks, lowerBlocks_withOrigin]
  rfl

namespace BusValue

/-- The term of a publisher does not depend on origins. -/
@[simp] theorem term_withOrigin : term (a.withOrigin origin) = term a := by
  funext l b t w
  simp only [term, Analysis.edge?_withOrigin, Analysis.registry_withOrigin, Registry.applyChain_withOrigin]

/-- Nor do the terms of several publishers. -/
@[simp] theorem terms_withOrigin : terms (a.withOrigin origin) = terms a := by
  funext l b t ws
  induction ws with
  | nil => rfl
  | cons w rest ih => simp only [terms, term_withOrigin, ih]

/-- A bus gets the same value. -/
@[simp] theorem lower_withOrigin : lower (a.withOrigin origin) = lower a := by
  funext slots l ix b
  simp only [lower, supply, fill, Analysis.types_withOrigin, Analysis.patch_withOrigin, terms_withOrigin]

/-- Buses get the same values, one after the other. -/
@[simp] theorem lowerAll_withOrigin : lowerAll (a.withOrigin origin) = lowerAll a := by
  funext slots l buses
  induction buses with
  | nil => rfl
  | cons b rest ih => simp only [lowerAll, lower_withOrigin, ih]

end BusValue

/-- What is emitted for buses does not depend on origins. -/
@[simp] theorem Analysis.lowerBuses_withOrigin : (a.withOrigin origin).lowerBuses = a.lowerBuses := by
  funext slots l
  simp only [lowerBuses, BusValue.lowerAll_withOrigin, patch_withOrigin]

namespace Linking

/-- Reserved slots are bound to the same outputs. -/
@[simp] theorem bindForwards_withOrigin : bindForwards (a.withOrigin origin) = bindForwards a := by
  funext l forwards
  induction forwards with
  | nil => rfl
  | cons f rest ih => simp only [bindForwards, Analysis.patch_withOrigin, ih]

/-- The first term that can be made is the same. -/
@[simp] theorem firstTerm_withOrigin : firstTerm (a.withOrigin origin) = firstTerm a := by
  funext slots l t ws
  induction ws with
  | nil => rfl
  | cons w rest ih =>
    simp only [firstTerm, Analysis.registry_withOrigin, Analysis.edge?_withOrigin, finishTerm_withOrigin, ih]

/-- The inputs of a block without a lowering are resolved in the same way. -/
@[simp] theorem resolveInputs_withOrigin : resolveInputs (a.withOrigin origin) = resolveInputs a := by
  funext slots l b inputs
  induction inputs with
  | nil => rfl
  | cons input rest ih =>
    funext done
    simp only [resolveInputs, resolveInput, Analysis.types_withOrigin, Analysis.patch_withOrigin, firstTerm_withOrigin, ih]

/-- The inputs of a block are linked in the same way. -/
@[simp] theorem blockInputs_withOrigin : blockInputs (a.withOrigin origin) = blockInputs a := by
  funext slots l b
  simp only [blockInputs, Analysis.patch_withOrigin, Analysis.registry_withOrigin, Normalized.decl?_withOrigin,
    resolveInputs_withOrigin]

/-- The inputs of all blocks are linked in the same way. -/
@[simp] theorem allInputs_withOrigin : allInputs (a.withOrigin origin) = allInputs a := by
  funext slots l blocks
  induction blocks with
  | nil => rfl
  | cons b rest ih => simp only [allInputs, blockInputs_withOrigin, ih]

/-- The table of inputs is the same. -/
@[simp] theorem inputTable_withOrigin : inputTable (a.withOrigin origin) = inputTable a := by
  funext inputs
  simp only [inputTable, Analysis.patch_withOrigin, Analysis.registry_withOrigin, Registry.decl?_withOrigin,
    Analysis.types_withOrigin]

/-- The table of outputs is the same. -/
@[simp] theorem outputTable_withOrigin : outputTable (a.withOrigin origin) = outputTable a := by
  funext l
  simp only [outputTable, Analysis.patch_withOrigin, Analysis.registry_withOrigin, Registry.decl?_withOrigin,
    Analysis.types_withOrigin]

end Linking

/-- Linking does not depend on origins. -/
@[simp] theorem Analysis.link_withOrigin : (a.withOrigin origin).link = a.link := by
  funext slots l buses options
  simp only [link, Linking.bindForwards_withOrigin, Linking.allInputs_withOrigin, Linking.inputTable_withOrigin,
    Linking.outputTable_withOrigin, patch_withOrigin]
  rfl

/-- From lowering to linking, nothing that is emitted depends on origins. -/
@[simp] theorem Analysis.emission_withOrigin : (a.withOrigin origin).emission = a.emission := by
  funext consts options
  simp only [emission, emitBlocks_withOrigin, lowerBuses_withOrigin, link_withOrigin]

/-! ## Compilations -/

/-- What the checks find out about a patch is the same; it only keeps the registry with the other origins. -/
theorem Patch.analysis_withOrigin (p : Patch) (time : Time) :
    p.analysis (r.withOrigin origin) time = (p.analysis r time).withOrigin origin := by
  simp only [analysis, normalize_withOrigin, Typing.table_withOrigin, Normalized.dependencies_withOrigin,
    DependencyGraph.condense_withOrigin]
  rfl

namespace Job

variable (j : Job)

/-- The job against a registry whose declarations all come from one origin. -/
def withOrigin (origin : String) : Job := { j with registry := j.registry.withOrigin origin }

theorem normal_withOrigin : (j.withOrigin origin).normal = j.normal := Patch.normalize_withOrigin _ _ _

/-- The time of the patch is resolved in the same way. -/
theorem time?_withOrigin : (j.withOrigin origin).time? = j.time? := by
  simp only [time?, normal_withOrigin]
  exact congrArg Except.toOption (Time.resolve_withOrigin _ _ _)

/-- What a job emits does not depend on origins. -/
theorem emission?_withOrigin : (j.withOrigin origin).emission? = j.emission? := by
  have hanalysis : ∀ time, (j.withOrigin origin).patch.analysis (j.withOrigin origin).registry time
      = (j.patch.analysis j.registry time).withOrigin origin := Patch.analysis_withOrigin _ _ _
  simp only [emission?, time?_withOrigin, normal_withOrigin, hanalysis, Analysis.emission_withOrigin]
  rfl

/-- Each stage of a job says the same. -/
theorem said_withOrigin : (j.withOrigin origin).said = j.said := by
  funext troubled s
  have hregistry : (j.withOrigin origin).registry = j.registry.withOrigin origin := rfl
  cases s <;> simp only [said, hregistry, emission?_withOrigin, normal_withOrigin, Normalized.typeDiagnostics_withOrigin,
    Time.resolve_withOrigin, Normalized.dependencyDiagnostics_withOrigin, Normalized.dependencies_withOrigin,
    DependencyGraph.cycleDiagnostics_withOrigin]

end Job

/-- Where the declarations of a registry came from makes no difference to a compilation. -/
theorem compile_withOrigin (p : Patch) (options : Options) : compile p (r.withOrigin origin) options = compile p r options := by
  let j : Job := ⟨p, r, options⟩
  have hstops : (j.withOrigin origin).stops = j.stops := by
    funext s
    simp only [Job.stops, j.said_withOrigin]
  have hexecuted : ∀ stages, (j.withOrigin origin).executed stages = j.executed stages := by
    intro stages
    induction stages with
    | nil => rfl
    | cons s rest ih => simp only [Job.executed, hstops, ih]
  refine (j.withOrigin origin).compile_eq.trans (Eq.trans ?_ j.compile_eq.symm)
  rw [hstops, hexecuted, j.said_withOrigin, j.emission?_withOrigin]

/-! ## One text, one registry -/

/-- A registry made of manifests is made again from its canonical text, with the origin of the text in place of the old ones, if its
doubles are read back; it compiles everything as before. Two registries made of manifests with one canonical text hold the same
under the same names, except for the origins, and compile everything alike. -/
theorem Registry.canonicalText_determines {r : Registry} (hr : r.Loaded) :
    ((∀ x ∈ r.doubles, x.ReadsBack) → ∀ origin,
      Registry.empty.load r.canonicalText origin = (r.withOrigin origin, .ok r.manifest.declarations.length)
        ∧ ∀ p options, compile p (r.withOrigin origin) options = compile p r options)
      ∧ ∀ s : Registry, s.Loaded → r.canonicalText = s.canonicalText →
        (∀ origin, r.withOrigin origin = s.withOrigin origin) ∧ ∀ p options, compile p r options = compile p s options := by
  constructor
  · intro hreads origin
    exact ⟨hr.load_canonicalText_eq hreads origin, compile_withOrigin r origin⟩
  · intro s hs htext
    have hsame := hr.withOrigin_eq_of_canonicalText hs htext
    refine ⟨hsame, fun p options => ?_⟩
    calc compile p r options
      _ = compile p (r.withOrigin "") options := (compile_withOrigin r "" p options).symm
      _ = compile p (s.withOrigin "") options := by rw [hsame]
      _ = compile p s options := compile_withOrigin s "" p options

namespace Registry.Reloaded

/-- A block type that sums up what it is given, with a default that is no short binary fraction. -/
def meter : Manifest where
  blocks := [{
    type := "Meter"
    inputs := [⟨"in", "Signal<float>", some (.float ⟨0x3fb999999999999a⟩), some ⟨.always, .max⟩, true⟩]
    outputs := [⟨"out", "Signal<float>"⟩]
    stateBoundary := true
    lowering := some "integrate" }]

/-- A lens and an adapter of the same name. -/
def fades : Manifest where
  transforms := [⟨"fade", .lens, {}, some "scale"⟩, ⟨"fade", .adapter, { world := some .signal, domain := some .float }, none⟩]

/-- Two manifests loaded one after the other. -/
def pair (m : Manifest) (origin : String) (n : Manifest) (other : String) : Registry :=
  ((Registry.empty.declareAll origin m.declarations).1.declareAll other n.declarations).1

/-- Two manifests that can be written and do not clash make a registry that was loaded. -/
theorem loaded_pair {m n : Manifest} {origin other : String} (hm : ∀ v ∈ m.values, v.Storable) (hn : ∀ v ∈ n.values, v.Storable)
    (hmreads : ∀ x ∈ m.doubles, x.ReadsBack) (hnreads : ∀ x ∈ n.doubles, x.ReadsBack)
    (hfirst : (Registry.empty.declareAll origin m.declarations).2 = none)
    (hsecond : ((Registry.empty.declareAll origin m.declarations).1.declareAll other n.declarations).2 = none) :
    (pair m origin n other).Loaded := by
  have hafter : (Registry.empty.declareAll origin m.declarations).1.Loaded := Loaded.empty.declareAll hm hmreads hfirst
  exact hafter.declareAll hn hnreads hsecond

end Registry.Reloaded

theorem Registry.canonicalText_determines_pair :
    Registry.empty.load (Reloaded.pair Reloaded.meter "a" Reloaded.fades "b").canonicalText "copy"
        = ((Reloaded.pair Reloaded.meter "a" Reloaded.fades "b").withOrigin "copy", .ok 3)
      ∧ ((Reloaded.pair Reloaded.meter "a" Reloaded.fades "b").block? "Meter").map (·.origin) = some "a"
      ∧ ((Reloaded.pair Reloaded.fades "c" Reloaded.meter "d").block? "Meter").map (·.origin) = some "d"
      ∧ ∀ p options, compile p (Reloaded.pair Reloaded.meter "a" Reloaded.fades "b") options
        = compile p (Reloaded.pair Reloaded.fades "c" Reloaded.meter "d") options := by
  have hfirst : (Reloaded.pair Reloaded.meter "a" Reloaded.fades "b").Loaded := by
    apply Reloaded.loaded_pair <;> decide +kernel
  have hsecond : (Reloaded.pair Reloaded.fades "c" Reloaded.meter "d").Loaded := by
    apply Reloaded.loaded_pair <;> decide +kernel
  have hmanifest : (Reloaded.pair Reloaded.meter "a" Reloaded.fades "b").manifest
      = (Reloaded.pair Reloaded.fades "c" Reloaded.meter "d").manifest := by
    decide +kernel
  obtain ⟨hreload, hdetermined⟩ := Registry.canonicalText_determines hfirst
  refine ⟨(hreload (by decide +kernel) "copy").1, by decide +kernel, by decide +kernel, ?_⟩
  exact (hdetermined _ hsecond (congrArg (fun m => m.toJson.compact) hmanifest)).2

end PatchGraph
