import Mathlib.Data.List.Forall2
import PatchGraph.Proofs.Compile.Runs

/-!
# Running a compilation again

Runs one after the other on one compilation keep its books in order: there is a stage to blame if and only if an error was reported, it
is the first one for ever, and no run breaks off because something is not there (`run_accounts`). What earlier runs left behind has no
influence on a later one (`run_eq_fresh_run`).
-/

namespace PatchGraph

namespace Job

/-- What the verification finds is all that linking leaves out after an error. -/
theorem said_link (j : Job) : j.said true .link = (j.said false .link).filter (·.code ≠ some .unverified) := by
  unfold said
  cases htime : j.time? with
  | none => simp [emission?, htime]
  | some time =>
    have hremarks := (j.patch.analysis j.registry time).remarks_emission j.normal.2 j.options
    simp only [emission?, htime, Option.map_some, Option.getD_some]
    generalize (j.patch.analysis j.registry time).emission j.normal.2 j.options = e at hremarks
    have hlinking : e.afterLink.diagnostics.filter (·.code ≠ some .unverified) = e.afterLink.diagnostics :=
      List.filter_eq_self.2 fun d hd => decide_eq_true (hremarks d (List.mem_append_right _ hd)).ne_unverified
    simp only [if_true, Bool.false_eq_true, if_false, List.filter_append, hlinking, e.filter_unverified]

/-- What a stage says after an error differs at most in what linking leaves out. -/
theorem said_cases (j : Job) (troubled : Bool) (s : Stage) : j.said troubled s = j.said false s
    ∨ s = .link ∧ troubled = true ∧ j.said troubled s = (j.said false s).filter (·.code ≠ some .unverified) := by
  by_cases hs : s = .link
  · cases troubled with
    | false => exact .inl rfl
    | true => exact .inr ⟨hs, rfl, hs ▸ j.said_link⟩
  · exact .inl (said_eq hs troubled)

end Job

namespace Compilation

/-- A compilation after some runs, each up to a stage. -/
def after (c : Compilation) (terminals : List Stage) : Compilation := terminals.foldl (fun c terminal => (c.run terminal).state) c

/-- What is compiled stays the same. -/
theorem job_after (c : Compilation) (terminals : List Stage) : (c.after terminals).job = c.job := by
  induction terminals generalizing c with
  | nil => rfl
  | cons terminal rest ih => exact (ih (c.run terminal).state).trans (c.underway_run terminal).1.job

/-! ## Errors -/

/-- There is a stage to blame if and only if an error was reported. -/
structure Consistent (c : Compilation) : Prop where
  failed : c.failed.isSome = c.hasError
  diagnostics : hasErrors c.diagnostics = c.hasError

variable {c : Compilation}

theorem Consistent.run (h : c.Consistent) (terminal : Stage) : (c.run terminal).state.Consistent := by
  obtain ⟨hrun, -, -⟩ := c.underway_run terminal
  constructor
  · rw [hrun.failed, hrun.hasError, ← h.failed, Option.isSome_or, List.isSome_find?]
  · rw [hrun.diagnostics, hrun.hasError, ← h.diagnostics, hasErrors, List.any_append, List.any_flatMap]
    rfl

theorem Consistent.after (h : c.Consistent) (terminals : List Stage) : (c.after terminals).Consistent := by
  induction terminals generalizing c with
  | nil => exact h
  | cons terminal rest ih => exact ih (h.run terminal)

/-- A run fails if and only if an error was reported, in it or before. -/
theorem Consistent.failure_eq_none_iff (h : c.Consistent) (terminal : Stage) :
    (c.run terminal).failure = none ↔ (c.run terminal).state.hasError = false := by
  obtain ⟨hrun, -, hfailure⟩ := c.underway_run terminal
  rw [hfailure, Option.or_eq_none_iff, ← (h.run terminal).failed, Option.isSome_eq_false_iff, Option.isNone_iff_eq_none]
  refine ⟨And.right, fun hnone => ⟨?_, hnone⟩⟩
  rw [hrun.failed, Option.or_eq_none_iff, List.find?_eq_none] at hnone
  rcases c.job.executed_cases terminal.required with ⟨hpassed, -⟩ | ⟨before, s, rest, -, -, heq, hstops, -⟩
  · exact hpassed
  · exact absurd (Job.isFront_of_stops hstops c.hasError).2 (hnone.2 s (heq ▸ List.mem_concat_self))

/-- The first stage that had an error stays to blame. -/
theorem failed_after {s : Stage} (h : c.failed = some s) (terminals : List Stage) : (c.after terminals).failed = some s := by
  induction terminals generalizing c with
  | nil => exact h
  | cons terminal rest ih =>
    refine ih ?_
    rw [(c.underway_run terminal).1.failed, h]
    rfl

end Compilation

theorem Job.consistent_start (j : Job) : j.start.Consistent := ⟨rfl, rfl⟩

/-- After any runs of a compilation and one more, there is a stage to blame if and only if an error was reported, it stays to blame in
all later runs, and the last run failed if and only if there is one. The last run executed all stages up to its own, unless it ended
with a check that had an error to report; the failure it returned is that of the stage to blame or of that check. -/
theorem run_accounts (j : Job) (earlier : List Stage) (terminal : Stage) :
    let run := (j.start.after earlier).run terminal
    run.state.failed.isSome = run.state.hasError ∧ hasErrors run.state.diagnostics = run.state.hasError
      ∧ (run.failure = none ↔ run.state.hasError = false)
      ∧ (∀ s, run.state.failed = some s → ∀ later, (run.state.after later).failed = some s)
      ∧ run.passes.map (·.1) <+: terminal.required
      ∧ (run.passes.map (·.1) ≠ terminal.required →
        ∃ s ds, run.passes.getLast? = some (s, ds) ∧ s.isFront = true ∧ hasErrors ds = true)
      ∧ ∀ s, run.failure = some s →
        run.state.failed = some s ∨ s.isFront = true ∧ ∃ ds, (s, ds) ∈ run.passes ∧ hasErrors ds = true := by
  generalize hc : j.start.after earlier = c
  have hbefore : c.Consistent := hc ▸ j.consistent_start.after earlier
  have hafter := hbefore.run terminal
  obtain ⟨-, hpasses, hfailure⟩ := c.underway_run terminal
  have hstages : (c.run terminal).passes.map (·.1) = c.job.executed terminal.required := by
    rw [hpasses, List.map_map]
    exact List.map_id _
  refine ⟨hafter.failed, hafter.diagnostics, hbefore.failure_eq_none_iff terminal, fun s hs => Compilation.failed_after hs, ?_⟩
  rw [hstages, hfailure, hpasses]
  rcases c.job.executed_cases terminal.required with ⟨hnone, heq⟩ | ⟨before, t, rest, hfind, hrequired, heq, hstops, -⟩
  · rw [hnone, heq]
    exact ⟨List.prefix_rfl, fun hne => absurd rfl hne, fun s hs => .inl hs⟩
  · obtain ⟨hfront, herrors⟩ := Job.isFront_of_stops hstops c.hasError
    rw [hfind, heq]
    refine ⟨⟨rest, ?_⟩, fun _ => ⟨t, _, ?_, hfront, herrors⟩, fun s hs => .inr ?_⟩
    · rw [hrequired, List.append_assoc, List.singleton_append]
    · rw [List.map_append, List.map_singleton, List.getLast?_concat]
    · obtain rfl := Option.some.inj hs
      exact ⟨hfront, _, List.mem_map_of_mem List.mem_concat_self, herrors⟩

/-! ## Earlier runs have no influence -/

/-- A run after any others executes the same stages in the same order as the first run of a compilation would, and each artifact that
they make is the same. They also say the same, except that linking leaves out what the verification finds if there was an error
before. -/
theorem run_eq_fresh_run (j : Job) (earlier : List Stage) (terminal : Stage) :
    let before := j.start.after earlier
    let again := before.run terminal
    let fresh := j.start.run terminal
    List.Forall₂ (fun a f => a.1 = f.1 ∧ (a.2 = f.2
        ∨ a.1 = .link ∧ before.hasError = true ∧ a.2 = f.2.filter (·.code ≠ some .unverified))) again.passes fresh.passes
      ∧ ∀ s ∈ again.passes.map (·.1), ∀ x ∈ s.outputs, x.Same again.state.artifacts fresh.state.artifacts := by
  intro before again fresh
  have hjob : before.job = j := j.start.job_after earlier
  obtain ⟨hagain, hpasses, -⟩ := before.underway_run terminal
  obtain ⟨hfresh, hfreshPasses, -⟩ := j.start.underway_run terminal
  rw [hjob] at hagain hpasses
  rw [j.job_start] at hfresh hfreshPasses
  constructor
  · rw [hpasses, hfreshPasses, List.forall₂_map_left_iff, List.forall₂_map_right_iff, List.forall₂_same]
    exact fun s _ => ⟨rfl, j.said_cases before.hasError s⟩
  · intro s hs x hx
    rw [hpasses, List.map_map] at hs
    have hs : s ∈ j.executed terminal.required := by simpa using hs
    exact (hagain.made s hs x hx).trans (hfresh.made s hs x hx).symm

end PatchGraph
