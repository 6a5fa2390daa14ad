import PatchGraph.Proofs.Compile.Stages

/-!
# The outcome of a compilation

A compilation ends in one of two ways. A check refuses the patch, and nothing is said but what this check found; or there is a program,
and all that is said was found while it was emitted (`compile_outcome`).
-/

namespace PatchGraph

/-- What is said in an emission is of no check. -/
theorem Analysis.check?_emission (a : Analysis) (consts : Pool) (options : Options) {d : Diagnostic}
    (hd : d ∈ (a.emission consts options).diagnostics) : ∃ c, d.code = some c ∧ c.check? = none := by
  have hcodes : ∀ c ∈ emissionCodes, c.check? = none := by decide
  have hremarks := a.remarks_emission consts options
  generalize a.emission consts options = e at hd hremarks
  rw [Emission.diagnostics, ← List.append_assoc] at hd
  rcases List.mem_append.1 hd with hd | hd
  · obtain ⟨c, hc, hcode⟩ := (hremarks d hd).code
    exact ⟨c, hcode, hcodes c hc⟩
  · rw [Emission.unverified] at hd
    split at hd
    · cases hd
    · exact ⟨.unverified, List.mem_singleton.1 hd ▸ rfl, rfl⟩

/-- The compilation of a patch that passes its checks fails if and only if there is an error among what is said. -/
theorem Normalized.Passes.failure_eq_none_iff {p : Patch} {r : Registry} {time : Time} (h : (p.normalize r).1.Passes r time)
    (options : Options) : (compile p r options).failure = none ↔ ∀ d ∈ (compile p r options).diagnostics, d.isError = false := by
  let j : Job := ⟨p, r, options⟩
  have hresult : compile p r options = _ := j.compile_eq
  rw [hresult, j.passes_iff.1 ⟨time, h⟩, Option.none_or, List.find?_eq_none]
  simp only [hasErrors, List.forall_mem_flatMap, List.any_eq_true, not_exists, not_and, Bool.not_eq_true]

/-- A compilation has no program if and only if something was said with a code of a check. Then all that was said are errors of one
check, and this is the stage that failed. If it has a program, all that was said has a code of a later stage, and the compilation
failed if and only if there is an error among it. -/
theorem compile_outcome (p : Patch) (r : Registry) (options : Options) :
    let result := compile p r options
    (result.linked = none ↔ ∃ d ∈ result.diagnostics, ∃ c, d.code = some c ∧ c.check? ≠ none)
      ∧ (result.linked = none → ∃ s, result.failure = some s ∧ ∀ d ∈ result.diagnostics, RefusedBy s d)
      ∧ (result.linked ≠ none → (∀ d ∈ result.diagnostics, ∃ c, d.code = some c ∧ c.check? = none)
        ∧ (result.failure = none ↔ ∀ d ∈ result.diagnostics, d.isError = false)) := by
  intro result
  by_cases h : ∃ time, (p.normalize r).1.Passes r time
  · obtain ⟨time, h⟩ := h
    obtain ⟨hlinked, hdiagnostics, -⟩ := h.compile_eq options
    have hsome : result.linked ≠ none := hlinked ▸ Option.some_ne_none _
    have hcodes : ∀ d ∈ result.diagnostics, ∃ c, d.code = some c ∧ c.check? = none :=
      fun d hd => Analysis.check?_emission _ _ _ (hdiagnostics ▸ hd)
    refine ⟨iff_of_false hsome ?_, fun hnone => absurd hnone hsome, fun _ => ⟨hcodes, h.failure_eq_none_iff options⟩⟩
    rintro ⟨d, hd, c, hcode, hc⟩
    obtain ⟨c', hcode', hc'⟩ := hcodes d hd
    obtain rfl := Option.some.inj (hcode.symm.trans hcode')
    exact hc hc'
  · obtain ⟨s, hfailure, hnone, hrefused, herrors⟩ := refused_of_not_passes h options
    obtain ⟨d, hd, -⟩ := List.any_eq_true.1 herrors
    obtain ⟨c, hcode, hc⟩ := (hrefused d hd).code
    refine ⟨iff_of_true hnone ⟨d, hd, c, hcode, hc ▸ Option.some_ne_none s⟩, fun _ => ⟨s, hfailure, hrefused⟩, ?_⟩
    exact fun hsome => absurd hnone hsome

end PatchGraph
