import PatchGraph.Proofs.Compile.Stages
import PatchGraph.Proofs.Program.Growth
import PatchGraph.Proofs.Registry.Reload

/-!
# Assertions that do not hold

Constants and handles have no node that combines them: the last of their values counts, and it is asserted that the mode says so. A
policy is checked before its values are combined, so one would expect the assertion to hold always. It does, except that handles in the
world of events may also be summed, as events are: the check goes by the world, the node by the domain (`breaches_summed`). Where
assertions are checked, such a sum breaks the compilation off (`compileAsserted_cameraRig`).
-/

namespace PatchGraph

/-! ## What one step asserts -/

namespace Build

variable {α β : Type}

/-- A step that leaves the breaches as they are. -/
def Silent (m : Build α) : Prop := ∀ b, (m.run b).2.breaches = b.breaches

theorem Silent.pure (a : α) : Silent (pure a) := fun _ => rfl

/-- Two steps assert nothing if neither does. -/
theorem Silent.bind {m : Build α} {f : α → Build β} (h : m.Silent) (hf : ∀ a, (f a).Silent) : (m >>= f).Silent :=
  fun b => (hf (m.run b).1 (m.run b).2).trans (h b)

/-- A constant becomes a signal with no assertion on the way. -/
theorem silent_asSignal (v : ValueRef) : (asSignal v).Silent := by
  cases v <;> exact fun _ => rfl

/-- To see a value as a field asserts nothing. -/
theorem silent_asField (v : ValueRef) : (asField v).Silent := by
  cases v <;> exact fun _ => rfl

/-- To see a value as an event asserts nothing. -/
theorem silent_asEvent (v : ValueRef) : (asEvent v).Silent := by
  cases v <;> exact fun _ => rfl

/-- To view several values asserts nothing if no view does. -/
theorem silent_viewAll {view : ValueRef → Build (Option α)} (hview : ∀ v, (view v).Silent) (vs : List ValueRef) :
    (viewAll view vs).Silent := by
  induction vs with
  | nil => exact .pure _
  | cons v rest ih =>
    refine (hview v).bind fun o => ?_
    cases o with
    | none => exact .pure _
    | some a =>
      refine ih.bind fun o => ?_
      cases o <;> exact .pure _

/-- A mode that picks none of the values, for values that no node combines. -/
def Fails (t : ValueType) (mode : CombineMode) : Prop :=
  (t.representation = .const ∨ t.representation = .handle) ∧ mode ≠ .last ∧ mode ≠ .error

instance (t : ValueType) (mode : CombineMode) : Decidable (Fails t mode) :=
  inferInstanceAs (Decidable ((t.representation = .const ∨ t.representation = .handle) ∧ mode ≠ .last ∧ mode ≠ .error))

/-- What combining values asserts: a breach is added if and only if the assertion does not hold, and none is ever taken away. -/
theorem breaches_combine (t : ValueType) (mode : CombineMode) (terms : List ValueRef) (b : Builder) :
    ((combine t mode terms).run b).2.breaches = b.breaches ++ if Fails t mode then [⟨t, mode⟩] else [] := by
  unfold combine
  split
  case h_4 | h_5 =>
    rename_i ht
    have hfails : Fails t mode ↔ picks mode = false := by simp [Fails, ht, picks]
    show (if picks mode then b else { b with breaches := b.breaches ++ [_] }).breaches = _
    cases hpicks : picks mode <;> simp [hfails, hpicks]
  case h_6 =>
    rename_i ht
    have hfails : ¬Fails t mode := by simp [Fails, ht]
    rw [if_neg hfails, List.append_nil]
    rfl
  all_goals
    rename_i ht
    have hfails : ¬Fails t mode := by simp [Fails, ht]
    rw [if_neg hfails, List.append_nil]
    refine Silent.bind (silent_viewAll ?_ terms) (fun o => ?_) b
    · first | exact silent_asSignal | exact silent_asField | exact silent_asEvent
    · cases o <;> exact fun _ => rfl

end Build

/-! ## The regime of assertions -/

/-- A breach of an assertion that was to be expected to hold: the policy was checked. -/
structure Breach.Admitted (x : Breach) : Prop where
  allows : x.type.allows x.mode = true
  fails : Build.Fails x.type x.mode

/-- The regime in which breaches are only added, and only such as the check of policies admits. -/
def Regime.admitted : Regime where
  Inv _ b := ∀ x ∈ b.breaches, x.Admitted
  Le b b' := b.breaches <+: b'.breaches
  Usable _ _ := True
  Bound _ _ := True

namespace Regime

variable {α : Type} {rs rs' : List SlotId} {b : Builder}

/-- A step that asserts nothing. -/
theorem builds_admitted {m : Build α} {Q : α → Builder → Prop} (hb : admitted.Inv rs' b) (hm : (m.run b).2.breaches = b.breaches)
    (h : Q (m.run b).1 (m.run b).2) : admitted.Builds rs m b Q :=
  ⟨fun x hx => hb x (hm ▸ hx), ⟨[], by rw [hm, List.append_nil]⟩, h⟩

/-- What is asserted where values are combined: a breach is one that the check of policies admits. -/
theorem builds_assert_admitted {t : ValueType} {mode : CombineMode} (hb : admitted.Inv rs b) (hallows : t.allows mode = true)
    (ht : t.representation = .const ∨ t.representation = .handle) :
    admitted.Builds rs (Build.assert (Build.picks mode) ⟨t, mode⟩) b fun _ _ => True := by
  cases hpicks : Build.picks mode with
  | true => exact builds_admitted hb rfl trivial
  | false =>
    have hfails : Build.Fails t mode := by
      unfold Build.picks at hpicks
      exact ⟨ht, by simpa using hpicks⟩
    refine ⟨List.forall_mem_append.2 ⟨hb, List.forall_mem_singleton.2 ⟨hallows, hfails⟩⟩, List.prefix_append _ _, trivial⟩

/-- The elementary steps keep to the regime: the one that asserts is given a mode that the type allows. -/
theorem stateful_admitted : admitted.Stateful where
  refl _ := List.prefix_rfl
  trans := List.IsPrefix.trans
  mono _ _ := trivial
  steady := id
  slotType := False.elim
  intern _ hb := builds_admitted hb rfl trivial
  signal hb _ _ _ := builds_admitted hb rfl trivial
  field hb _ _ := builds_admitted hb rfl trivial
  event hb _ _ := builds_admitted hb rfl trivial
  slotFor hb _ _ _ := builds_admitted hb rfl trivial
  handle _ _ hb := builds_admitted hb rfl trivial
  renderSink hb _ _ := builds_admitted hb rfl trivial
  camera hb _ _ := builds_admitted hb rfl trivial
  assert := builds_assert_admitted
  state _ _ hb := builds_admitted hb rfl trivial
  stateSignal hb _ _ := builds_admitted hb rfl trivial

theorem raw_admitted (b : Builder) (v : ValueRef) : admitted.Raw b v := ⟨fun _ _ => trivial, False.elim⟩

/-- To read a slot asserts nothing. -/
theorem readSlot_admitted {s : SlotId} (hb : admitted.Inv rs b) :
    admitted.Builds rs (Build.readSlot s) b fun o b' => ∀ v ∈ o, admitted.Raw b' v :=
  builds_readSlot stateful_admitted.toElementary hb
    ⟨trivial, builds_admitted hb rfl trivial, builds_admitted hb rfl trivial, builds_admitted hb rfl trivial⟩

/-- To bind a slot asserts nothing. -/
theorem binds_admitted : admitted.Binds where
  mono _ _ := trivial
  bind {rs b s v source} hb _ _ _ _ := by
    refine builds_admitted hb ?_ trivial
    rw [Build.run_bind]
    split <;> rfl

/-- The lowerings and transforms of a standard registry keep to the regime. -/
theorem lawful_admitted {a : Analysis} (hr : a.registry.Standard) : admitted.Lawful a :=
  stateful_admitted.lawful hr (fun _ _ => raw_admitted _ _) (fun hb _ => readSlot_admitted hb) False.elim

/-- Whatever assertion does not hold when a program is emitted, the check of policies admits it. -/
theorem admitted_emission {a : Analysis} (hr : a.registry.Standard) (hbuses : a.types.buses.length = a.patch.buses.length)
    (consts : Pool) (options : Options) : ∀ x ∈ (a.emission consts options).afterLink.builder.breaches, x.Admitted :=
  (holds_emission (lawful_admitted hr) (fun _ hb => builds_admitted hb rfl trivial) binds_admitted
    (fun _ hb => builds_admitted hb rfl trivial) options hbuses (List.forall_mem_nil _)).inv

end Regime

/-! ## Which assertions do not hold -/

namespace ValueType

variable {t : ValueType} {mode : CombineMode}

/-- Only scalars are constants. -/
theorem world_of_const (h : t.representation = .const) : t.world = .scalar := by
  rcases t with ⟨world, domain, category, semantics, unit⟩
  cases world <;> cases domain <;> first | rfl | cases h

/-- Only element domains and cameras are handles. -/
theorem domain_of_handle (h : t.representation = .handle) : t.domain = .elementDomain ∨ t.domain = .camera := by
  rcases t with ⟨world, domain, category, semantics, unit⟩
  cases domain <;> cases world <;> first | exact .inl rfl | exact .inr rfl | cases h

/-- The modes that handles allow: those of events may be summed. -/
theorem modes_of_handle (hdomain : t.domain = .elementDomain ∨ t.domain = .camera) (h : t.allows mode = true) :
    mode = .error ∨ mode = .last ∨ mode = .sum ∧ t.world = .event := by
  have hplain : t.domain.isNumeric = false ∧ t.domain ≠ .color := by
    rcases hdomain with hdomain | hdomain <;> simp [hdomain, Domain.isNumeric]
  cases hworld : t.world <;> simp [allows, hworld, hplain] at h ⊢ <;> exact h

end ValueType

/-- A breach that the check of policies admits is a sum of handles that are declared as events. -/
theorem Breach.Admitted.summed {x : Breach} (h : x.Admitted) :
    x.type.representation = .handle ∧ x.mode = .sum ∧ x.type.world = .event
      ∧ (x.type.domain = .elementDomain ∨ x.type.domain = .camera) := by
  obtain ⟨hallows, hform | hform, hlast, herror⟩ := h
  · have hworld := x.type.world_of_const hform
    simp [ValueType.allows, hworld, hlast, herror] at hallows
  · have hdomain := ValueType.domain_of_handle hform
    rcases ValueType.modes_of_handle hdomain hallows with hmode | hmode | ⟨hsum, hworld⟩
    · exact absurd hmode herror
    · exact absurd hmode hlast
    · exact ⟨hform, hsum, hworld, hdomain⟩

namespace Compilation.Run

variable {run : Run}

/-- Where all assertions hold it makes no difference that they are checked. -/
theorem asserted_of_nil (h : run.state.breaches = []) : run.asserted = .ok run := by
  rw [asserted, h]

/-- The first assertion that does not hold breaks a run off. -/
theorem asserted_of_cons {x : Breach} {rest : List Breach} (h : run.state.breaches = x :: rest) : run.asserted = .error x := by
  rw [asserted, h]

end Compilation.Run

section

variable {p : Patch} {r : Registry} {options : Options}

/-- A patch that does not pass its checks is not lowered, so that nothing is asserted. -/
theorem passes_of_breaches (h : breaches p r options ≠ []) : ∃ time, (p.normalize r).1.Passes r time := by
  let j : Job := ⟨p, r, options⟩
  obtain ⟨hrun, -, -⟩ := j.start.underway_run .link
  refine j.passes_iff.2 (Classical.by_contradiction fun hnot => h ?_)
  obtain ⟨-, -, -, hfront, -⟩ := Job.executed_of_stops hnot
  rw [Stage.required_link, j.job_start] at hrun
  exact hrun.breaches.trans (j.breaches_of_front hfront _)

/-- Where all assertions hold, it makes no difference that they are checked. -/
theorem compileAsserted_of_nil (h : breaches p r options = []) : compileAsserted p r options = .ok (compile p r options) := by
  rw [compileAsserted, Compilation.Run.asserted_of_nil h]
  rfl

/-- The first assertion that does not hold breaks the compilation off. -/
theorem compileAsserted_of_cons {x : Breach} {rest : List Breach} (h : breaches p r options = x :: rest) :
    compileAsserted p r options = .error x := by
  rw [compileAsserted, Compilation.Run.asserted_of_cons h]
  rfl

/-- Whatever assertion does not hold when a patch is compiled, the check of policies admits it. -/
theorem admitted_of_mem_breaches (hr : r.Loaded) {x : Breach} (hx : x ∈ breaches p r options) : x.Admitted := by
  obtain ⟨time, hpasses⟩ := passes_of_breaches (List.ne_nil_of_mem hx)
  rw [hpasses.breaches_eq options] at hx
  exact Regime.admitted_emission (a := p.analysis r time) hr.standard (List.length_map _) _ options x hx

end

/-- Where values are combined, an assertion is recorded as a breach if and only if the values are constants or handles and the mode is
neither `last` nor `error`. With a registry that was made of manifests, this happens in a compilation only where handles that are
declared as events are summed. A compilation without a breach is the same with assertions checked, and one with a breach is broken off by
the first. -/
theorem breaches_summed {r : Registry} (hr : r.Loaded) :
    (∀ t mode terms b, ((Build.combine t mode terms).run b).2.breaches
        = b.breaches ++ if (t.representation = .const ∨ t.representation = .handle) ∧ mode ≠ .last ∧ mode ≠ .error
          then [⟨t, mode⟩] else [])
      ∧ ∀ p options,
        (∀ x ∈ breaches p r options, x.type.representation = .handle ∧ x.mode = .sum ∧ x.type.world = .event
          ∧ (x.type.domain = .elementDomain ∨ x.type.domain = .camera))
        ∧ (breaches p r options = [] → compileAsserted p r options = .ok (compile p r options))
        ∧ ∀ x rest, breaches p r options = x :: rest → compileAsserted p r options = .error x := by
  refine ⟨Build.breaches_combine, fun p options => ⟨?_, compileAsserted_of_nil, ?_⟩⟩
  · intro x hx
    exact (admitted_of_mem_breaches hr hx).summed
  · intro x rest hbreaches
    exact compileAsserted_of_cons hbreaches

/-- A camera whose handle is declared as an event, and a sink that combines such handles by a mode. -/
def cameraRig (mode : CombineMode) : Manifest where
  blocks := [
    { type := "Eye", outputs := [⟨"camera", "Event<camera>"⟩], lowering := some "camera" },
    { type := "Rig", inputs := [{ id := "in", type := "Event<camera>", combine := some ⟨.always, mode⟩ }],
      lowering := some "renderSink" }]

/-- The built-in registry with the camera and the sink. -/
def cameraRigRegistry (mode : CombineMode) : Registry := (Registry.builtin.declareAll "m" (cameraRig mode).declarations).1

/-- The manifest holds no value, so that nothing is lost when it is written. -/
theorem loaded_cameraRig {mode : CombineMode} (hdeclared : (Registry.builtin.declareAll "m" (cameraRig mode).declarations).2 = none) :
    (cameraRigRegistry mode).Loaded :=
  Registry.Loaded.builtin.declareAll (List.forall_mem_nil _) (List.forall_mem_nil _) hdeclared

/-- The camera feeds the sink. -/
def cameraRigPatch : Patch where
  blocks := [⟨"c", "Eye", {}, {}⟩, ⟨"r", "Rig", {}, {}⟩, ⟨"t", "InfiniteTimeRoot", {}, {}⟩]
  edges := [{ id := "e", source := .port "c" "camera", target := .port "r" "in" }]

/-- The sum of cameras that the sink asks for. -/
def cameraSum : Breach := ⟨{ world := .event, domain := .camera }, .sum⟩

/-- A manifest may ask for the sum of cameras that are declared as events, and a patch may feed the sink. -/
theorem breaches_cameraRig :
    (cameraRigRegistry .sum).Loaded ∧ breaches cameraRigPatch (cameraRigRegistry .sum) {} = [cameraSum]
      ∧ (compile cameraRigPatch (cameraRigRegistry .sum) {}).diagnostics = [] := by
  have hfacts : (Registry.builtin.declareAll "m" (cameraRig .sum).declarations).2 = none
      ∧ breaches cameraRigPatch (cameraRigRegistry .sum) {} = [cameraSum]
      ∧ (compile cameraRigPatch (cameraRigRegistry .sum) {}).diagnostics = [] := by
    decide +kernel
  exact ⟨loaded_cameraRig hfacts.1, hfacts.2⟩

/-- The one assertion that does not hold when the sink is fed is about cameras that are declared as events. -/
theorem breaches_summed_cameraRig :
    (cameraRigRegistry .sum).Loaded ∧ cameraSum ∈ breaches cameraRigPatch (cameraRigRegistry .sum) {}
      ∧ cameraSum.type.representation = .handle ∧ cameraSum.mode = .sum ∧ cameraSum.type.world = .event
      ∧ (cameraSum.type.domain = .elementDomain ∨ cameraSum.type.domain = .camera) := by
  obtain ⟨hloaded, hbreaches, -⟩ := breaches_cameraRig
  have hmem : cameraSum ∈ breaches cameraRigPatch (cameraRigRegistry .sum) {} := by
    rw [hbreaches]
    exact List.mem_singleton_self _
  exact ⟨hloaded, hmem, ((breaches_summed hloaded).2 cameraRigPatch {}).1 cameraSum hmem⟩

/-- Nothing is said about the sum of the cameras, although no node can make it. Where assertions are checked, it breaks the compilation
off. -/
theorem compileAsserted_cameraRig :
    (cameraRigRegistry .sum).Loaded ∧ (compile cameraRigPatch (cameraRigRegistry .sum) {}).diagnostics = []
      ∧ compileAsserted cameraRigPatch (cameraRigRegistry .sum) {} = .error cameraSum
      ∧ cameraSum.message = "combine mode Sum reached a Handle port" := by
  obtain ⟨hloaded, hbreaches, hsilent⟩ := breaches_cameraRig
  exact ⟨hloaded, hsilent, compileAsserted_of_cons hbreaches, by decide⟩

end PatchGraph
