import PatchGraph.Proofs.Compile.Outcome
import PatchGraph.Proofs.Graph.Legality

/-!
# What diagnostics are about

A diagnostic of a compilation names a part of the patch as it was given: a block, a port that the type of its block declares, an enabled
edge or a bus (`Patch.Names`). The checks name what they look at. In particular the check of cycles always finds a block to name, for no
edge joins two buses. The patch as a whole is only named if it has no time root or if its program does not pass the verification
(`diagnostics_name_parts`).
-/

namespace PatchGraph

/-- A locator names a part of a patch that takes part in its compilation. Of blocks that share an id, the first one owns the ports. -/
def Patch.Names (p : Patch) (r : Registry) : Locator → Prop
  | .patch => False
  | .block id => ∃ b ∈ p.blocks, b.id = id
  | .port owner port => ∃ b, p.blocks.find? (·.id = owner) = some b ∧ ∃ d, r.decl? b.type = some d ∧ d.Declares port
  | .edge id => ∃ e ∈ p.edges, e.enabled = true ∧ e.id = id
  | .bus id => ∃ b ∈ p.buses, b.id = id

/-- The parts of a normalized patch are parts of the patch. -/
theorem Patch.names_of_normalize {p : Patch} {r : Registry} {l : Locator} (h : (p.normalize r).1.Names r l) : p.Names r l := by
  cases l with
  | patch => exact h
  | block id =>
    obtain ⟨b, hb, rfl⟩ := h
    exact ⟨b, List.mem_of_find?_eq_some (mem_sortedById.1 hb), rfl⟩
  | port owner port =>
    obtain ⟨b, hb, rfl, hport⟩ := h
    exact ⟨b, mem_sortedById.1 hb, hport⟩
  | edge id =>
    obtain ⟨e, he, rfl⟩ := h
    obtain ⟨he, henabled⟩ := mem_sortedEdges.1 he
    exact ⟨e, he, henabled, rfl⟩
  | bus id =>
    obtain ⟨b, hb, rfl⟩ := h
    exact ⟨b, List.mem_of_find?_eq_some (mem_sortedById.1 hb), rfl⟩

/-! ## Cycles -/

namespace Normalized

variable {n : Normalized} {r : Registry} {d : Diagnostic}

/-- A cycle is named by one of its blocks. -/
theorem locator_of_mem_cycleDiagnostics (h : d ∈ (n.dependencies r).cycleDiagnostics n r) :
    ∃ b ∈ n.blocks, d.locator = .block b.id := by
  obtain ⟨k, hk, rfl⟩ := List.mem_map.1 h
  obtain ⟨hk, hillegal⟩ := List.mem_filter.1 hk
  rw [Bool.not_eq_true'] at hillegal
  obtain ⟨ix, rest, -, hmem, hlocator, -⟩ := (reports_illegalCycle hk hillegal).blocks
  obtain ⟨-, hlt⟩ := (hmem ix).1 List.mem_cons_self
  have hblock : n.block? ix = some n.blocks[ix.index] := List.getElem?_eq_getElem hlt
  exact ⟨n.blocks[ix.index], List.getElem_mem hlt, by rw [hlocator, blockId_of_block? hblock]⟩

end Normalized

/-! ## Emissions -/

/-- The edge of a writer is an edge of the patch. -/
theorem Analysis.mem_edges_of_edge? {a : Analysis} {w : Writer} {e : Edge} (h : a.edge? w = some e) : e ∈ a.patch.edges := by
  obtain ⟨i, -, hi⟩ := Option.bind_eq_some_iff.1 h
  exact List.mem_of_getElem? hi

namespace Normalized

variable {n : Normalized} {r : Registry} {ix : BlockIx} {b : Block}

/-- A block at a place is a part of the patch. -/
theorem names_block_at (h : n.block? ix = some b) : n.Names r (.block b.id) := ⟨b, List.mem_of_getElem? h, rfl⟩

/-- A declared port of a block at a place is a part of the patch. -/
theorem names_port_at (h : n.block? ix = some b) {d : BlockDecl} (hd : r.decl? b.type = some d) {port : String}
    (hport : d.Declares port) : n.Names r (.port (n.blockId ix) port) := by
  rw [blockId_of_block? h]
  exact ⟨b, List.mem_of_getElem? h, rfl, d, hd, hport⟩

end Normalized

namespace Patch

variable {p : Patch} {r : Registry} {time : Time} {d : Diagnostic}

/-- A declared input is a part of the patch. -/
theorem names_input {ix : BlockIx} {input : InputDecl} (h : (p.analysis r time).Declares ix input) :
    (p.normalize r).1.Names r (.port ((p.normalize r).1.blockId ix) input.id) := by
  obtain ⟨decl, hdecl, hinput⟩ := h
  obtain ⟨b, hb, hdecl⟩ := Option.bind_eq_some_iff.1 hdecl
  exact Normalized.names_port_at hb hdecl (.inl ⟨input, hinput, rfl⟩)

/-- Every error of an emission names a part of the patch. -/
theorem names_of_finding (h : Finding (p.analysis r time) d) : (p.normalize r).1.Names r d.locator := by
  cases h with
  | step e h => exact ⟨_, Analysis.mem_edges_of_edge? h, rfl⟩
  | inputPolicy declared h =>
    rw [(complaint_of_policyProblem h).about]
    exact names_input declared
  | missingInput declared => exact names_input declared
  | stateInPureBlock h => exact Normalized.names_block_at h
  | blockFailed e h => exact Normalized.names_block_at h
  | busPolicy hb h =>
    rw [(BusValue.complaint_of_policyProblem h).about]
    exact ⟨_, hb, rfl⟩
  | publisherFailed edge e hb => exact ⟨_, hb, rfl⟩
  | noValue t hb => exact ⟨_, hb, rfl⟩
  | unboundForward h =>
    obtain ⟨b, decl, hb, hdecl, houtput⟩ := Typing.exists_output_of_outputType? h
    exact Normalized.names_port_at hb hdecl (.inr houtput)
  | unregistered h hports hport =>
    obtain ⟨b, decl, hb, hdecl, rfl⟩ := Typing.decl_of_ports? hports
    obtain rfl := Option.some.inj (hb.symm.trans h)
    obtain ⟨o, ho, heq⟩ := List.mem_map.1 hport
    exact ⟨b, List.mem_of_getElem? hb, rfl, decl, hdecl, .inr ⟨o, ho, congrArg Prod.fst heq⟩⟩

/-- Findings and remarks name parts of the patch. -/
theorem names_of_remark {options : Options} (h : Remark (p.analysis r time) options d) : (p.normalize r).1.Names r d.locator := by
  cases h with
  | finding h => exact names_of_finding h
  | silentBus hb => exact ⟨_, hb, rfl⟩

/-! ## Compilations -/

/-- What a diagnostic of a compilation may be about. -/
def Locates (p : Patch) (r : Registry) (d : Diagnostic) : Prop :=
  p.Names r d.locator ∨ d.locator = .patch ∧ (d.code = some .noTimeRoot ∨ d.code = some .unverified)

/-- What the later stages say names a part of the patch, or the patch where the verification fails. -/
theorem locates_of_mem_emission {consts : Pool} {options : Options}
    (h : d ∈ ((p.analysis r time).emission consts options).diagnostics) : p.Locates r d := by
  rw [Emission.diagnostics, ← List.append_assoc] at h
  rcases List.mem_append.1 h with h | h
  · exact .inl (names_of_normalize (names_of_remark (Analysis.remarks_emission _ _ _ d h)))
  · unfold Emission.unverified at h
    split at h
    · cases h
    · obtain rfl := List.mem_singleton.1 h
      exact .inr ⟨rfl, .inr rfl⟩

/-- What a check names. -/
theorem locates_of_mem_said {options : Options} {troubled : Bool} {s : Stage} (hs : s.isFront = true)
    (h : d ∈ (Job.mk p r options).said troubled s) : p.Locates r d := by
  cases s with
  | normalize => cases h
  | typeGraph => exact .inl (names_of_normalize (Normalized.refusalsAt_typeDiagnostics _ r d h).2)
  | timeTopology =>
    rw [Job.said] at h
    split at h
    · cases h
    · rename_i e hresolve
      obtain rfl := List.mem_singleton.1 h
      rcases (Time.refusedBy_of_resolve hresolve).2 with hnames | ⟨hpatch, hcode⟩
      · exact .inl (names_of_normalize hnames)
      · exact .inr ⟨hpatch, .inl hcode⟩
  | depGraph => exact .inl (names_of_normalize (Normalized.refusalsAt_dependencyDiagnostics _ r d h).2)
  | cycleCheck =>
    obtain ⟨b, hb, hlocator⟩ := Normalized.locator_of_mem_cycleDiagnostics h
    refine .inl (names_of_normalize ?_)
    rw [hlocator]
    exact ⟨b, hb, rfl⟩
  | lowerBlocks | lowerBuses | link => cases hs

end Patch

/-- Every diagnostic of a compilation names a block of the patch, a port that the type of its block declares, an enabled edge or a bus. Only
if there is no time root or if a program does not pass its verification, it names the patch as a whole. An illegal cycle is always named
by one of its blocks. -/
theorem diagnostics_name_parts (p : Patch) (r : Registry) (options : Options) :
    ∀ d ∈ (compile p r options).diagnostics,
      (p.Names r d.locator ∨ d.locator = .patch ∧ (d.code = some .noTimeRoot ∨ d.code = some .unverified))
        ∧ (d.code = some .illegalCycle → ∃ b ∈ p.blocks, d.locator = .block b.id) := by
  intro d hd
  by_cases h : ∃ time, (p.normalize r).1.Passes r time
  · obtain ⟨time, h⟩ := h
    rw [h.diagnostics_eq] at hd
    refine ⟨Patch.locates_of_mem_emission hd, fun hcode => ?_⟩
    obtain ⟨c, hc, hcheck⟩ := Analysis.check?_emission _ _ _ hd
    obtain rfl := Option.some.inj (hcode.symm.trans hc)
    cases hcheck
  · obtain ⟨s, hfront, -, hcompile⟩ := compile_refused h
    have hsaid : (compile p r options).diagnostics = (Job.mk p r {}).said false s := by rw [hcompile options]
    rw [hsaid] at hd
    refine ⟨Patch.locates_of_mem_said hfront hd, fun hcode => ?_⟩
    -- the code of an illegal cycle is one of the check of cycles
    obtain ⟨c, hc, hcheck⟩ := (Job.refusalsBy_said hfront false d hd).code
    obtain rfl := Option.some.inj (hcode.symm.trans hc)
    obtain rfl := Option.some.inj hcheck
    obtain ⟨b, hb, hlocator⟩ := Normalized.locator_of_mem_cycleDiagnostics hd
    exact ⟨b, List.mem_of_find?_eq_some (mem_sortedById.1 hb), hlocator⟩

/-- A block that feeds itself. Another block has its id, and an edge that is switched off leads nowhere. -/
def selfFeed : Patch where
  blocks := [⟨"a", "Add", {}, {}⟩, ⟨"a", "Nothing", {}, {}⟩, ⟨"t", "InfiniteTimeRoot", {}, {}⟩]
  edges := [{ id := "e", source := .port "a" "out", target := .port "a" "a" },
    { id := "f", source := .port "b" "out", target := .bus "k", enabled := false }]

/-- The cycle is reported at its block. -/
theorem diagnostics_name_parts_selfFeed :
    ∃ d ∈ (compile selfFeed .builtin {}).diagnostics, d.code = some .illegalCycle ∧ d.locator = .block "a"
      ∧ selfFeed.Names .builtin d.locator ∧ ∃ b ∈ selfFeed.blocks, d.locator = .block b.id := by
  have hsaid : (compile selfFeed .builtin {}).diagnostics.any
      (fun d => d.code = some .illegalCycle ∧ d.locator = .block "a") = true := by
    decide +kernel
  obtain ⟨d, hd, hd'⟩ := List.any_eq_true.1 hsaid
  obtain ⟨hcode, hlocator⟩ := of_decide_eq_true hd'
  obtain ⟨hnames | ⟨hpatch, -⟩, hcycle⟩ := diagnostics_name_parts selfFeed .builtin {} d hd
  · exact ⟨d, hd, hcode, hlocator, hnames, hcycle hcode⟩
  · cases hlocator.symm.trans hpatch

end PatchGraph
