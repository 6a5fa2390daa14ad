import PatchGraph.Proofs.Compile.Outcome

/-!
# Strict compilations

A caller can ask for a publisher on every bus. This decides whether a silent bus is reported as an error or as a warning, and nothing
else: the program is the same, and so is all that is said, except that nothing is said of the verification once there is an error
(`strictness_grades_silent_buses`). So a strict compilation succeeds exactly if there is nothing at all to say of the patch.
-/

namespace PatchGraph

/-- A diagnostic with silent buses taken for warnings, whichever way they are graded. -/
def Diagnostic.ungraded (d : Diagnostic) : Diagnostic := if d.code = some .silentBus then { d with level := .warning } else d

/-! ## Silent buses -/

namespace Linking

variable (a : Analysis) (buses : List BusOutcome) (options : Options)

/-- The same buses are reported with any options. -/
theorem ungraded_busDiagnostics : (busDiagnostics a buses options).map Diagnostic.ungraded = busDiagnostics a buses {} := by
  simp only [busDiagnostics, List.map_filterMap]
  congr 1
  funext x
  split <;> rfl

theorem busDiagnostics_eq_nil_iff : busDiagnostics a buses options = [] ↔ busDiagnostics a buses {} = [] := by
  rw [← ungraded_busDiagnostics a buses options, List.map_eq_nil_iff]

/-- A silent bus is graded by the options. -/
theorem isError_of_mem_busDiagnostics {d : Diagnostic} (h : d ∈ busDiagnostics a buses options) :
    d.code = some .silentBus ∧ d.isError = options.requirePublishers := by
  obtain ⟨⟨b, o⟩, -, hd⟩ := List.mem_filterMap.1 h
  dsimp only at hd
  split at hd
  · obtain rfl := Option.some.inj hd
    refine ⟨rfl, ?_⟩
    cases options with
    | mk strict => cases strict <;> rfl
  · cases hd

end Linking

/-! ## Emissions with any options -/

namespace Analysis

variable (a : Analysis) (consts : Pool)

/-- The program does not depend on the options. -/
theorem linked_emission_eq (o o' : Options) : (a.emission consts o).linked = (a.emission consts o').linked := by
  obtain ⟨e, ds, -, heq⟩ := a.emission_eq consts
  rw [heq o, heq o']

/-- Apart from the verification, the same is said with any options, except for how the silent buses are graded. -/
theorem ungraded_emission_eq (o o' : Options) :
    ((a.emission consts o).diagnostics.filter (·.code ≠ some .unverified)).map Diagnostic.ungraded
      = ((a.emission consts o').diagnostics.filter (·.code ≠ some .unverified)).map Diagnostic.ungraded := by
  have hfilter : ∀ options, (a.emission consts options).diagnostics.filter (·.code ≠ some .unverified)
      = (a.emission consts options).afterBlocks.diagnostics ++ (a.emission consts options).afterBuses.diagnostics
        ++ (a.emission consts options).afterLink.diagnostics := by
    intro options
    have hremarks := a.remarks_emission consts options
    rw [Emission.diagnostics, ← List.append_assoc, List.filter_append, Emission.filter_unverified, List.append_nil]
    exact List.filter_eq_self.2 fun d hd => decide_eq_true (hremarks d hd).ne_unverified
  obtain ⟨e, ds, -, heq⟩ := a.emission_eq consts
  rw [hfilter, hfilter, heq o, heq o']
  simp only [List.map_append, Linking.ungraded_busDiagnostics]

/-- All that is said are errors, except for silent buses where they may be. -/
theorem isError_of_mem_emission {options : Options} {d : Diagnostic} (h : d ∈ (a.emission consts options).diagnostics) :
    d.isError = true ∨ d.code = some .silentBus ∧ options.requirePublishers = false := by
  obtain ⟨e, ds, hds, heq⟩ := a.emission_eq consts
  rw [heq options, Emission.diagnostics, ← List.append_assoc, ← List.append_assoc] at h
  rcases List.mem_append.1 h with h | h
  · rcases List.mem_append.1 h with h | h
    · exact .inl (hds d h).isError
    · obtain ⟨hcode, herror⟩ := Linking.isError_of_mem_busDiagnostics a e.buses options h
      cases hstrict : options.requirePublishers with
      | true => exact .inl (herror.trans hstrict)
      | false => exact .inr ⟨hcode, rfl⟩
  · exact .inl (Emission.isError_of_mem_unverified h)

/-- If nothing is said with some options, then all is the same with others. -/
theorem emission_eq_of_silent {o : Options} (h : (a.emission consts o).diagnostics = []) (o' : Options) :
    a.emission consts o' = a.emission consts o := by
  obtain ⟨e, ds, -, heq⟩ := a.emission_eq consts
  rw [heq o, Emission.diagnostics] at h
  simp only [List.append_eq_nil_iff] at h
  obtain ⟨-, ⟨-, hsilent⟩, -⟩ := h
  have hsilent' : Linking.busDiagnostics a e.buses o' = [] := by
    rwa [Linking.busDiagnostics_eq_nil_iff, ← Linking.busDiagnostics_eq_nil_iff a e.buses o]
  rw [heq o, heq o', hsilent, hsilent']

end Analysis

/-! ## Compilations with any options -/

namespace Normalized.Passes

variable {p : Patch} {r : Registry} {time : Time} (h : (p.normalize r).1.Passes r time)

include h

/-- There is nothing to say if and only if the compilation succeeds and leaves no bus silent where it may. -/
theorem diagnostics_eq_nil_iff (options : Options) :
    (compile p r options).diagnostics = [] ↔ (compile p r options).failure = none
      ∧ (options.requirePublishers = false → ∀ d ∈ (compile p r options).diagnostics, d.code ≠ some .silentBus) := by
  rw [h.failure_eq_none_iff]
  constructor
  · intro hnil
    rw [hnil]
    exact ⟨List.forall_mem_nil _, fun _ => List.forall_mem_nil _⟩
  · rintro ⟨hnone, hsilent⟩
    refine List.eq_nil_iff_forall_not_mem.2 fun d hd => ?_
    rcases Analysis.isError_of_mem_emission _ _ (h.diagnostics_eq options ▸ hd) with herror | ⟨hcode, hlenient⟩
    · cases (hnone d hd).symm.trans herror
    · exact hsilent hlenient d hd hcode

/-- If there is nothing to say with some options, then there is nothing to say with others. -/
theorem diagnostics_eq_nil_of {o : Options} (hnil : (compile p r o).diagnostics = []) (o' : Options) :
    (compile p r o').diagnostics = [] := by
  rw [h.diagnostics_eq] at hnil
  rw [h.diagnostics_eq, Analysis.emission_eq_of_silent _ _ hnil, hnil]

end Normalized.Passes

/-- A compilation returns the same program whether buses without publishers are errors or warnings. Both say the same, apart from what is
said of the verification and from how grave such a bus is. The strict one succeeds if and only if the other one does and reports no such
bus. -/
theorem strictness_grades_silent_buses (p : Patch) (r : Registry) :
    let strict := compile p r { requirePublishers := true }
    let lenient := compile p r { requirePublishers := false }
    strict.linked = lenient.linked
      ∧ (strict.diagnostics.filter (·.code ≠ some .unverified)).map Diagnostic.ungraded
        = (lenient.diagnostics.filter (·.code ≠ some .unverified)).map Diagnostic.ungraded
      ∧ (strict.failure = none ↔ lenient.failure = none ∧ ∀ d ∈ lenient.diagnostics, d.code ≠ some .silentBus) := by
  intro strict lenient
  by_cases h : ∃ time, (p.normalize r).1.Passes r time
  · obtain ⟨time, h⟩ := h
    obtain ⟨hlinked, hsaid, -⟩ := h.compile_eq { requirePublishers := true }
    obtain ⟨hlinked', hsaid', -⟩ := h.compile_eq { requirePublishers := false }
    refine ⟨?_, ?_, ?_⟩
    · rw [show strict.linked = _ from hlinked, show lenient.linked = _ from hlinked']
      exact congrArg some (Analysis.linked_emission_eq _ _ _ _)
    · rw [show strict.diagnostics = _ from hsaid, show lenient.diagnostics = _ from hsaid']
      exact Analysis.ungraded_emission_eq _ _ _ _
    · constructor
      · intro hnone
        have hnil : strict.diagnostics = [] := (h.diagnostics_eq_nil_iff _).2 ⟨hnone, fun hlenient => by cases hlenient⟩
        obtain ⟨hnone', hsilent⟩ := (h.diagnostics_eq_nil_iff _).1 (h.diagnostics_eq_nil_of hnil { requirePublishers := false })
        exact ⟨hnone', hsilent rfl⟩
      · rintro ⟨hnone, hsilent⟩
        have hnil : lenient.diagnostics = [] := (h.diagnostics_eq_nil_iff _).2 ⟨hnone, fun _ => hsilent⟩
        exact ((h.diagnostics_eq_nil_iff _).1 (h.diagnostics_eq_nil_of hnil { requirePublishers := true })).1
  · obtain ⟨s, -, -, hcompile⟩ := compile_refused h
    have hstrict : strict = _ := hcompile _
    have hlenient : lenient = _ := hcompile _
    rw [hstrict, hlenient]
    refine ⟨rfl, rfl, iff_of_false (Option.some_ne_none s) ?_⟩
    rintro ⟨hnone, -⟩
    exact Option.some_ne_none s hnone

end PatchGraph
