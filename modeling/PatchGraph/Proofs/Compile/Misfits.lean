import PatchGraph.Proofs.Compile.SlotTypes
import PatchGraph.Proofs.Compile.ScheduleSteps
import PatchGraph.Proofs.Registry.Reload

/-!
# Slots that do not hold what their type asks for

A time root and a block with a state make a slot of the declared type for every output they know, and always put a signal into it (or
the event of time). If the type asks for anything else, the slot stays a misfit, since only reserved slots are ever given another source
(`Regime.marked`). So in a program that was compiled without an error all slots hold what their types ask for exactly if such outputs
are declared truthfully.
-/

namespace PatchGraph

/-- A slot that does not hold what its type asks for, apart from those that are reserved. -/
def Builder.Misfit (rs : List SlotId) (b : Builder) : Prop :=
  ∃ i slot, b.slots[i]? = some slot ∧ slot.source.fits slot.type.representation = false ∧ SlotId.mk i ∉ rs

/-- The regime of a builder with a misfit, or of any builder as long as nothing is known: what is reserved is there. -/
def Regime.marked (P : Prop) : Regime where
  Inv rs b := (∀ s ∈ rs, s.index < b.slots.size) ∧ (P → b.Misfit rs)
  Le _ _ := True
  Usable _ _ := True
  Bound _ _ := True

namespace Regime

variable {α : Type} {P : Prop} {rs : List SlotId} {b b' : Builder}

theorem raw_marked (b : Builder) (v : ValueRef) : (marked P).Raw b v := ⟨fun _ _ => trivial, False.elim⟩

theorem outputs_marked (declared : List (String × Option ValueType)) (d : Dict ValueRef) (b : Builder) :
    (marked P).Outputs declared d b :=
  ⟨fun v _ => raw_marked b v, False.elim⟩

/-- Slots keep their places when more are added. -/
theorem getElem?_of_prefix_slots (h : b.slots.toList <+: b'.slots.toList) {i : Nat} {slot : Slot} (hi : b.slots[i]? = some slot) :
    b'.slots[i]? = some slot := by
  rw [← Array.getElem?_toList] at hi ⊢
  exact getElem?_of_prefix h hi

/-- More slots leave a misfit where it is. -/
theorem marked_grow (hb : (marked P).Inv rs b) (h : b.slots.toList <+: b'.slots.toList) : (marked P).Inv rs b' := by
  refine ⟨fun s hs => Nat.lt_of_lt_of_le (hb.1 s hs) (by simpa using h.length_le), fun hP => ?_⟩
  obtain ⟨i, slot, hi, hmisfit, hfree⟩ := hb.2 hP
  exact ⟨i, slot, getElem?_of_prefix_slots h hi, hmisfit, hfree⟩

/-- A step that adds slots at the end keeps the misfit. -/
theorem builds_marked {m : Build α} {Q : α → Builder → Prop} (hb : (marked P).Inv rs b)
    (h : b.slots.toList <+: (m.run b).2.slots.toList) (hq : Q (m.run b).1 (m.run b).2) : (marked P).Builds rs m b Q :=
  ⟨marked_grow hb h, trivial, hq⟩

/-- A new slot is none of those that are reserved. -/
theorem marked_misfit (hb : (marked P).Inv rs b) (slot : Slot) (hslot : slot.source.fits slot.type.representation = false) :
    (marked True).Inv rs { b with slots := b.slots.push slot } := by
  refine ⟨fun s hs => ?_, fun _ => ⟨b.slots.size, slot, by simp, hslot, fun hmem => Nat.lt_irrefl _ (hb.1 _ hmem)⟩⟩
  rw [Array.size_push]
  exact Nat.lt_succ_of_lt (hb.1 s hs)

/-- The elementary steps keep the misfit. -/
theorem stateful_marked : (marked P).Stateful where
  refl _ := trivial
  trans _ _ := trivial
  mono _ _ := trivial
  steady := id
  slotType := False.elim
  intern _ hb := builds_marked hb List.prefix_rfl trivial
  signal hb _ _ _ := builds_marked hb List.prefix_rfl trivial
  field hb _ _ := builds_marked hb List.prefix_rfl trivial
  event hb _ _ := builds_marked hb List.prefix_rfl trivial
  slotFor hb _ _ _ := builds_marked hb (Build.prefix_push _ _) trivial
  handle _ _ hb := builds_marked hb List.prefix_rfl trivial
  renderSink hb _ _ := builds_marked hb List.prefix_rfl trivial
  camera hb _ _ := builds_marked hb List.prefix_rfl trivial
  assert hb _ _ := builds_assert fun _ => ⟨hb, trivial⟩
  state _ _ hb := builds_marked hb List.prefix_rfl trivial
  stateSignal hb _ _ := builds_marked hb List.prefix_rfl trivial

/-- The lowerings and transforms of a standard registry keep the misfit. -/
theorem lawful_marked {a : Analysis} (hr : a.registry.Standard) : (marked P).Lawful a :=
  stateful_marked.lawful hr (fun _ _ => raw_marked _ _)
    (fun hb _ => builds_readSlot stateful_marked.toElementary hb
      ⟨trivial, builds_marked hb List.prefix_rfl trivial, builds_marked hb List.prefix_rfl trivial,
        builds_marked hb List.prefix_rfl trivial⟩) False.elim

/-- A slot that is reserved is another one. -/
theorem reserves_marked : (marked P).Reserves := by
  intro rs b t hb
  have hgrown : (marked P).Inv rs ((Build.reserve t).run b).2 := marked_grow hb (Build.prefix_push _ _)
  refine ⟨⟨?_, fun hP => ?_⟩, trivial, trivial⟩
  · refine List.forall_mem_append.2 ⟨hgrown.1, List.forall_mem_singleton.2 ?_⟩
    show b.slots.size < (b.slots.push ⟨t, .unbound⟩).size
    rw [Array.size_push]
    exact Nat.lt_succ_self _
  · -- the misfit was there before
    obtain ⟨i, slot, hi, hmisfit, hfree⟩ := hb.2 hP
    have hlt : i < b.slots.size := (Array.getElem?_eq_some_iff.1 hi).1
    refine ⟨i, slot, getElem?_of_prefix_slots (Build.prefix_push b.slots ⟨t, .unbound⟩) hi, hmisfit, fun hmem => ?_⟩
    rcases List.mem_append.1 hmem with hmem | hmem
    · exact hfree hmem
    · exact Nat.ne_of_lt hlt (SlotId.mk.inj (List.mem_singleton.1 hmem))

/-- Only reserved slots are bound, and the misfit is none of them. -/
theorem binds_marked : (marked P).Binds where
  mono _ _ := trivial
  bind {rs b s v source} hb hs _ _ _ := by
    refine ⟨?_, trivial, trivial⟩
    rw [Build.run_bind]
    split
    · refine ⟨fun s' hs' => ?_, fun hP => ?_⟩
      · show s'.index < (b.slots.setIfInBounds _ _).size
        rw [Array.size_setIfInBounds]
        exact hb.1 s' hs'
      · obtain ⟨i, slot, hi, hmisfit, hfree⟩ := hb.2 hP
        have hne : s.index ≠ i := fun heq => hfree (heq ▸ hs)
        refine ⟨i, slot, ?_, hmisfit, hfree⟩
        show (b.slots.setIfInBounds _ _)[i]? = some slot
        rw [Array.getElem?_setIfInBounds_ne hne]
        exact hi
    · exact hb

/-- To write the schedule keeps the misfit. -/
theorem schedules_marked : (marked P).Schedules := fun _ hb => builds_marked hb List.prefix_rfl trivial

/-- Lowered blocks stay as they are, whatever is known of misfits. -/
theorem Good.marked_of {Q : Prop} {a : Analysis} {S : Scope} {v : Visited} (hv : (marked P).Good a S v b)
    (hinv : (marked Q).Inv (S.base ++ v.forwards.map (·.slot)) b') : (marked Q).Good a S v b' :=
  ⟨hinv, fun x hx => (hv.outcomes x hx).imp False.elim fun _ _ => raw_marked _ _, hv.forwards, hv.known,
    hv.distinct, False.elim⟩

end Regime

/-! ## Lowerings that make a misfit -/

namespace LoweringKind

open Regime Lower

variable {P : Prop} {rs : List SlotId} {b : Builder} {t : ValueType}

/-- A signal that is registered under a type of another form is a misfit. -/
theorem marks_signalOutput (hb : (marked P).Inv rs b) (e : SignalExpr) (ht : t.representation ≠ .signal) :
    (marked P).BuildsExcept rs (signalOutput e t) b fun _ b' => (marked True).Inv rs b' := by
  have hmisfit : SlotSource.fits t.representation (.signal ⟨b.signals.size⟩) = false := by
    cases hform : t.representation with
    | signal => exact absurd hform ht
    | _ => rfl
  have hmarked : (marked True).Inv rs ((signalOutput e t).run.run b).2 := marked_misfit hb ⟨t, .signal ⟨b.signals.size⟩⟩ hmisfit
  exact ⟨marked_grow hb (Build.prefix_push _ _), trivial, fun _ _ => hmarked⟩

/-- An event that is registered under a type of another form is a misfit. -/
theorem marks_eventOutput (hb : (marked P).Inv rs b) (e : EventExpr) (ht : t.representation ≠ .event) :
    (marked P).BuildsExcept rs (eventOutput e t) b fun _ b' => (marked True).Inv rs b' := by
  have hmisfit : SlotSource.fits t.representation (.event ⟨b.events.size⟩) = false := by
    cases hform : t.representation with
    | event => exact absurd hform ht
    | _ => rfl
  have hmarked : (marked True).Inv rs ((eventOutput e t).run.run b).2 := marked_misfit hb ⟨t, .event ⟨b.events.size⟩⟩ hmisfit
  exact ⟨marked_grow hb (Build.prefix_push _ _), trivial, fun _ _ => hmarked⟩

/-- A time root knows the outputs that have a form. -/
theorem timeForm?_eq_none {time : TimeModel} {port : String} (h : timeOutput? time port t = none) : timeForm? time port = none := by
  unfold timeOutput? at h
  unfold timeForm?
  split at h
  · cases h
  rw [if_neg ‹_›]
  split at h
  · cases h
  rw [if_neg ‹_›]
  split at h
  · cases h
  rw [if_neg ‹_›]
  split at h
  · cases h
  rw [if_neg ‹_›]

/-- An output of a time root that is not declared truthfully is a misfit. -/
theorem marks_timeOutput {time : TimeModel} {port : String} {make : Lower ValueRef} {form : Representation} (hb : (marked P).Inv rs b)
    (h : timeOutput? time port t = some make) (hform : timeForm? time port = some form) (ht : t.representation ≠ form) :
    (marked P).BuildsExcept rs make b fun _ b' => (marked True).Inv rs b' := by
  unfold timeOutput? at h
  unfold timeForm? at hform
  by_cases htime : port = "time"
  · rw [if_pos htime] at h hform
    obtain rfl := Option.some.inj h
    exact marks_signalOutput hb _ fun heq => ht (heq.trans (Option.some.inj hform))
  rw [if_neg htime] at h hform
  by_cases habsolute : port = "absTime"
  · rw [if_pos habsolute] at h hform
    obtain rfl := Option.some.inj h
    exact marks_signalOutput hb _ fun heq => ht (heq.trans (Option.some.inj hform))
  rw [if_neg habsolute] at h hform
  by_cases hphase : port = "phase" ∧ time.isCyclic
  · rw [if_pos hphase] at h hform
    obtain rfl := Option.some.inj h
    exact marks_signalOutput hb _ fun heq => ht (heq.trans (Option.some.inj hform))
  rw [if_neg hphase] at h hform
  by_cases hwrap : port = "wrap" ∧ time.isCyclic
  · rw [if_pos hwrap] at h hform
    obtain rfl := Option.some.inj h
    exact marks_eventOutput hb _ fun heq => ht (heq.trans (Option.some.inj hform))
  · rw [if_neg hwrap] at h
    cases h

/-- A time root makes a misfit of an output that is declared with a type of another form, and leaves it as it is. -/
theorem marks_timeOutputs {time : TimeModel} {outputs : List (String × Option ValueType)} {done : Dict ValueRef}
    (hb : (marked P).Inv rs b) {port : String} (hport : (port, some t) ∈ outputs) {form : Representation}
    (hform : timeForm? time port = some form) (ht : t.representation ≠ form) :
    (marked P).BuildsExcept rs (timeOutputs time outputs done) b fun _ b' => (marked True).Inv rs b' := by
  have E := (stateful_marked (P := P)).toElementary
  induction outputs generalizing b done with
  | nil => exact absurd hport List.not_mem_nil
  | cons output rest ih =>
    rcases List.mem_cons.1 hport with rfl | hrest
    · rw [timeOutputs]
      split
      · rename_i hnone
        cases (timeForm?_eq_none hnone).symm.trans hform
      · rename_i make hmake
        refine (marks_timeOutput hb hmake hform ht).bind E fun v b' hb' _ hmarked => ?_
        -- the outputs that are left keep to both regimes
        have hmore : ∀ {Q : Prop}, (marked Q).Inv rs b' → (marked Q).BuildsExcept rs (timeOutputs time rest (done.insert port v)) b' _ :=
          fun hb => builds_timeOutputs stateful_marked.toElementary False.elim (fun _ h => h) hb (outputs_marked rest _ b')
        exact ⟨(hmore hb').1, trivial, fun _ _ => (hmore hmarked).1⟩
    · obtain ⟨name, _ | u⟩ := output
      · exact ih hb hrest
      · rw [timeOutputs]
        split
        · exact ih hb hrest
        · rename_i make hmake
          exact (builds_timeOutput E hb hmake False.elim).bind E fun v b' hb' _ _ => ih hb' hrest

/-- A block with a state makes a misfit of an output that is not declared as a signal. -/
theorem marks_lowerStateful {site : Site} {inputs : Dict ValueRef} {expr : StateId → SignalId → Lower SignalExpr}
    (hb : (marked P).Inv rs b) (hexpr : ∀ s x b', (marked P).Inv rs b' → (marked P).BuildsExcept rs (expr s x) b' fun _ _ => True)
    (hout : portType? site.outputs "out" = some t) (ht : t.representation ≠ .signal) :
    (marked P).BuildsExcept rs (lowerStateful site inputs expr) b fun _ b' => (marked True).Inv rs b' := by
  have L := stateful_marked (P := P)
  have E := L.toElementary
  refine builds_need_bind E hb fun u hu => (builds_siteNumber E hb site "init" .zero).bind E fun init b₁ hb₁ _ _ => ?_
  obtain rfl := Option.some.inj (hout.symm.trans hu)
  refine builds_need_bind E hb₁ fun v _ => ?_
  refine (builds_needed E (builds_asSignal E hb₁ (raw_marked b₁ v))).bind E fun x b₂ hb₂ _ _ => ?_
  refine (BuildsExcept.lift E (L.state site.block _ hb₂)).bind E fun s b₃ hb₃ _ _ => (hexpr s x b₃ hb₃).bind E fun e b₄ hb₄ _ _ => ?_
  exact (marks_signalOutput hb₄ e ht).bind E fun _ b₅ hb₅ _ hmarked => .pure E hb₅ hmarked

/-- A lowering whose outputs are not declared truthfully makes a misfit, if it succeeds. -/
theorem marks_run {k : LoweringKind} (site : Site) (inputs : Dict ValueRef) (hb : (marked P).Inv rs b)
    (hk : ¬k.Truthful site.time site.outputs) :
    (marked P).BuildsExcept rs (k.run site inputs) b fun _ b' => (marked True).Inv rs b' := by
  have E := (stateful_marked (P := P)).toElementary
  obtain ⟨⟨t, form⟩, hx, ht⟩ : ∃ x ∈ k.fixedOutputs site.time site.outputs, x.1.representation ≠ x.2 := by
    simpa [Truthful] using hk
  have hstate : k.isStateful = true → portType? site.outputs "out" = some t ∧ form = .signal := by
    intro hk
    have hx : (t, form) ∈ (portType? site.outputs "out").toList.map fun t => (t, Representation.signal) := by
      cases k with
      | delay | integrate | sampleHold => exact hx
      | _ => cases hk
    obtain ⟨u, hu, heq⟩ := List.mem_map.1 hx
    obtain ⟨rfl, rfl⟩ := Prod.mk.inj heq
    exact ⟨Option.mem_toList.1 hu, rfl⟩
  have hpure : ∀ (e : SignalExpr) b', (marked P).Inv rs b' → (marked P).BuildsExcept rs (pure e : Lower SignalExpr) b' fun _ _ => True :=
    fun e b' hb' => .pure E hb' trivial
  cases k with
  | timeRoot =>
    obtain ⟨⟨port, type⟩, hport, hx⟩ := List.mem_filterMap.1 hx
    obtain ⟨form', hform, hx⟩ := Option.bind_eq_some_iff.1 hx
    obtain ⟨u, rfl, heq⟩ := Option.map_eq_some_iff.1 hx
    obtain ⟨rfl, rfl⟩ := Prod.mk.inj heq
    exact marks_timeOutputs hb hport hform ht
  | delay =>
    obtain ⟨hout, rfl⟩ := hstate rfl
    exact marks_lowerStateful hb (fun s x b' => hpure (.delay s x) b') hout ht
  | integrate =>
    obtain ⟨hout, rfl⟩ := hstate rfl
    exact marks_lowerStateful hb (fun s x b' => hpure (.integrate s x) b') hout ht
  | sampleHold =>
    obtain ⟨hout, rfl⟩ := hstate rfl
    refine marks_lowerStateful hb (fun s x b' hb' => ?_) hout ht
    exact (builds_trigger E hb' fun _ _ => raw_marked _ _).bind E fun o b'' hb'' _ _ => hpure (.sampleHold s x o) b'' hb''
  | const | identity | zip | map | domain | renderSink | camera => cases hx

end LoweringKind

/-! ## Emissions with a misfit -/

namespace Analysis

variable {a : Analysis} {slots : BusSlots} {ix : BlockIx}

/-- Blocks that were lowered: once a block is among them, there is a misfit. -/
def MarkedSoFar (a : Analysis) (slots : BusSlots) (ix : BlockIx) (v : Visited) (b : Builder) : Prop :=
  (Regime.marked ((v.outcomes.lookup ix).isSome = true)).Good a (.whole a slots) v b

/-- One more block that was lowered when there was a misfit. -/
theorem MarkedSoFar.add {m : Visit BlockOutcome} {v : Visited} {w : Workbench} {other : BlockIx}
    (h : (Regime.marked True).Visits a (.whole a slots) m v w fun o b' => (Regime.marked True).Outcome a other o b') :
    let s := (m.run v).run w
    a.MarkedSoFar slots ix { s.1.2 with outcomes := s.1.2.outcomes ++ [(other, s.1.1)] } s.2.builder := by
  have hadded := h.good.add h.result
  exact hadded.marked_of ⟨hadded.inv.1, fun _ => hadded.inv.2 trivial⟩

variable (hr : a.registry.Standard) {v : Visited} {w : Workbench}

include hr

/-- Another block. -/
theorem MarkedSoFar.lowerOther {other : BlockIx} (hne : other ≠ ix) (h : a.MarkedSoFar slots ix v w.builder) :
    let s := ((Visit.lowerBlock a slots other).run v).run w
    a.MarkedSoFar slots ix { s.1.2 with outcomes := s.1.2.outcomes ++ [(other, s.1.1)] } s.2.builder := by
  have hvisits : Regime.Visits _ a (.whole a slots) (Visit.lowerBlock a slots other) v w _ :=
    Regime.visits_lowerBlock (Regime.lawful_marked hr) (fun _ _ => Regime.reserves_marked)
      (fun _ x _ => Scope.admits_whole a slots x) h
  have hadded := hvisits.good.add hvisits.result
  refine hadded.marked_of ⟨hadded.inv.1, fun hsome => hadded.inv.2 ?_⟩
  have hlookup : List.lookup ix [(other, (((Visit.lowerBlock a slots other).run v).run w).1.1)] = none := by
    simp [List.lookup_cons, beq_eq_false_iff_ne.2 hne.symm]
  rwa [hvisits.outcomes, List.lookup_append, hlookup, Option.or_none] at hsome

/-- A block whose outputs are not declared truthfully. -/
theorem MarkedSoFar.lowerBlock {k : LoweringKind} {ports : PortTypes} (hl : a.lowering? ix = some (.kind k))
    (hports : a.types.ports? ix = some ports) (hk : ¬k.Truthful a.time.model ports.outputs)
    (hclean : (Visit.lowerBlock a slots ix).Clean v w) (h : a.MarkedSoFar slots ix v w.builder) :
    let s := ((Visit.lowerBlock a slots ix).run v).run w
    a.MarkedSoFar slots ix { s.1.2 with outcomes := s.1.2.outcomes ++ [(ix, s.1.1)] } s.2.builder := by
  have T := (Regime.lawful_marked (P := (v.outcomes.lookup ix).isSome = true) hr).toRouted
  rcases hclean.lowerBlock with ⟨hskipped, -⟩ | ⟨b, entry, l, ports', inputs, hb, hentry, hl', hports', -, hinputs, hlowering, hrun⟩
  · rcases hskipped with hnone | hnone
    · cases hl.symm.trans hnone
    · cases hports.symm.trans hnone
  obtain rfl := Option.some.inj (hl.symm.trans hl')
  obtain rfl := Option.some.inj (hports.symm.trans hports')
  have hresolve := Regime.visits_resolveInputs T (fun _ _ => Regime.reserves_marked) (fun _ x _ => Scope.admits_whole a slots x)
    entry.decl.inputs (Regime.Inputs.empty ix _) h
  obtain ⟨outputs, hok, -, hconclude⟩ := hlowering.runLowering hb
  rw [hrun, hconclude]
  have hmarked := (LoweringKind.marks_run ⟨ix, b.id, b.params, ports.outputs, a.time.model⟩ inputs hresolve.good.inv hk).2.2 outputs hok
  have hgood := hresolve.good.marked_of hmarked
  refine MarkedSoFar.add (Regime.visits_conclude (Regime.lawful_marked hr).toRouted b hports (fun e he => ?_) (fun d _ => ?_) hgood)
  · obtain ⟨t, ht, htyped⟩ := hresolve.result inputs hinputs e he
    exact ⟨t, ht, Regime.raw_marked _ _, htyped.2⟩
  · exact Regime.outputs_marked _ d _

/-- A clean emission has a misfit if the outputs of one of its blocks are not declared truthfully. -/
theorem misfit_emission (hbuses : a.types.buses.length = a.patch.buses.length)
    (horder : ∀ ix : BlockIx, ix.index < a.patch.blocks.length → ∃ u ∈ a.order, a.graph.node u = .block ix)
    {consts : Pool} {options : Options} (hclean : hasErrors (a.emission consts options).diagnostics = false)
    (huntruthful : ¬a.Truthful) :
    ∃ slot ∈ (a.emission consts options).afterLink.builder.slots, slot.source.fits slot.type.representation = false := by
  obtain ⟨ix, k, ports, hl, hports, hk⟩ : ∃ ix k ports, a.lowering? ix = some (.kind k) ∧ a.types.ports? ix = some ports
      ∧ ¬k.Truthful a.time.model ports.outputs := by
    simpa [Truthful] using huntruthful
  let e := a.emission consts options
  have T := (Regime.lawful_marked (P := True) hr).toRouted
  have hstart : (Regime.marked False).Inv [] { consts, timeModel := some a.time.model } :=
    ⟨fun s hs => absurd hs List.not_mem_nil, False.elim⟩
  obtain ⟨hstart, -⟩ := Regime.reserved_reserveBusSlots (Regime.lawful_marked hr).toRouted Regime.reserves_marked a.types.buses hstart
  rw [List.nil_append] at hstart
  have hnone : Regime.Good _ a (.whole a e.slots) _ _ := Regime.good_start (w := { builder := _ }) hstart
  obtain ⟨v, hv, hforwards, houtcomes, hvisited⟩ := exists_visited (I := a.MarkedSoFar e.slots ix) hclean (fun h => ⟨_, h⟩)
    (fun other v w hblock h => by
      by_cases hne : other = ix
      · subst hne
        exact MarkedSoFar.lowerBlock hr hl hports hk hblock h
      · exact MarkedSoFar.lowerOther hr hne h) (hnone.marked_of ⟨hnone.inv.1, nofun⟩)
  -- the block was lowered, so there is a misfit
  have hblock : ix.index < a.patch.blocks.length := by
    obtain ⟨entry, hentry, -⟩ := Option.bind_eq_some_iff.1 hl
    obtain ⟨block, hblock, -⟩ := Option.bind_eq_some_iff.1 hentry
    exact (List.getElem?_eq_some_iff.1 hblock).1
  obtain ⟨u, hu, hnode⟩ := horder ix hblock
  have hgood : (Regime.marked True).Good a (.whole a e.slots) v e.afterBlocks.builder :=
    hv.marked_of ⟨hv.inv.1, fun _ => hv.inv.2 (hvisited u hu ix hnode)⟩
  have hinv : (Regime.marked True).Inv (e.slots.filterMap id ++ e.lowered.forwards.map (·.slot)) e.afterBlocks.builder := by
    rw [hforwards]
    exact hgood.inv
  have hfs : (Regime.marked True).Forwards a e.lowered.forwards e.afterBlocks.builder := by
    rw [hforwards]
    exact ⟨hgood.forwards, False.elim⟩
  obtain ⟨b, hprepared, -⟩ := Regime.prepared_of_lowers T Regime.binds_marked consts options hbuses rfl hinv (hgood.lowers houtcomes) hfs
    False.elim
  obtain ⟨hinv', -⟩ := Regime.builds_pushSteps T Regime.schedules_marked (e.steps a) hprepared.inv
  rw [← hprepared.builder] at hinv'
  obtain ⟨i, slot, hi, hmisfit, -⟩ := hinv'.2 trivial
  exact ⟨slot, Array.mem_of_getElem? hi, hmisfit⟩

/-- All slots of a clean emission hold what their types ask for exactly if outputs are declared truthfully. -/
theorem fits_iff_truthful (hbuses : a.types.buses.length = a.patch.buses.length)
    (horder : ∀ ix : BlockIx, ix.index < a.patch.blocks.length → ∃ u ∈ a.order, a.graph.node u = .block ix)
    {consts : Pool} {options : Options} (hclean : hasErrors (a.emission consts options).diagnostics = false)
    (hbound : (a.emission consts options).linked.slotsBound = true) :
    (∀ slot ∈ (a.emission consts options).linked.program.slots, slot.source.fits slot.type.representation = true) ↔ a.Truthful := by
  constructor
  · intro hall
    by_contra huntruthful
    obtain ⟨slot, hslot, hmisfit⟩ := misfit_emission hr hbuses horder hclean huntruthful
    cases hmisfit.symm.trans (hall slot (Array.mem_toList_iff.2 hslot))
  · intro htruthful slot hslot
    have hholds := Regime.holds_sorted hr hbuses htruthful consts options
    have hne : slot.source ≠ .unbound := bne_iff_ne.1 (List.all_eq_true.1 hbound slot hslot)
    exact (hholds.inv slot (Array.mem_toList_iff.1 hslot)).resolve_left hne

end Analysis

/-- In a program that was compiled without an error, all slots hold an expression of the world that their types ask for exactly if the
outputs of time roots and of blocks with a state are declared as what they are. -/
theorem slots_fit_iff_truthful {p : Patch} {r : Registry} {options : Options} (hr : r.Loaded)
    (h : hasErrors (compile p r options).diagnostics = false) :
    ∃ time l, Time.resolve (p.normalize r).1 r = .ok time ∧ (compile p r options).linked = some l
      ∧ ((∀ slot ∈ l.program.slots, slot.source.fits slot.type.representation = true) ↔
        ∀ ix block entry k, (p.normalize r).1.block? ix = some block → r.block? block.type = some entry →
          entry.lowering = some (.kind k) → k.Truthful time.model (Typing.portTypes entry.decl).outputs) := by
  obtain ⟨time, hpasses, hclean⟩ := clean_compile h
  have hbound := (Regime.holds_names hr.standard p time options).slotsBound (Emission.clean_stages hclean).2.2
  have hiff := Analysis.fits_iff_truthful hr.standard (List.length_map _) Patch.exists_order hclean hbound
  exact ⟨time, _, hpasses.time, (hpasses.compile_eq options).1, hiff.trans (p.truthful_iff r time)⟩

/-- With the built-in registry all slots of a delay that feeds itself hold signals, also the one that it reads itself from. -/
theorem slots_fit_iff_truthful_delayLoop :
    ∃ l, (compile (delayLoop (.float .one)) .builtin {}).linked = some l ∧ l.program.slots.length = 3
      ∧ ∀ slot ∈ l.program.slots, slot.source.fits slot.type.representation = true := by
  have hchecks : hasErrors (compile (delayLoop (.float .one)) .builtin {}).diagnostics = false
      ∧ (compile (delayLoop (.float .one)) .builtin {}).linked.any (·.program.slots.length = 3) = true := by
    decide +kernel
  obtain ⟨time, l, -, hl, hiff⟩ := slots_fit_iff_truthful .builtin hchecks.1
  obtain ⟨l', hl', hlength⟩ := (Option.any_eq_true _ _).1 hchecks.2
  obtain rfl := Option.some.inj (hl'.symm.trans hl)
  refine ⟨l', hl, of_decide_eq_true hlength, hiff.2 fun _ _ entry k _ hentry hk => ?_⟩
  exact Registry.truthful_builtin entry (Dict.mem_values_of_get? hentry) k hk time.model

/-- A time root whose time is declared as a field. -/
def fieldClock : Manifest where
  blocks := [{ type := "T", outputs := [⟨"time", "Field<time>"⟩], timeRoot := some .infinite, lowering := some "timeRoot" }]

/-- The built-in registry and the time root of fields. -/
def fieldClockRegistry : Registry := (Registry.builtin.load fieldClock.toJson.compact "m").1

/-- A patch with nothing but a time root of fields. -/
def fieldClockPatch : Patch where
  blocks := [⟨"t", "T", {}, {}⟩]

/-- A manifest may declare the time of a time root as a field. Its slot then holds a signal, and nothing is said. -/
theorem field_holds_signal_fieldClock :
    fieldClockRegistry.Loaded ∧ (compile fieldClockPatch fieldClockRegistry {}).diagnostics = []
      ∧ ∃ l, (compile fieldClockPatch fieldClockRegistry {}).linked = some l
        ∧ ∃ slot ∈ l.program.slots, slot.type.representation = .field ∧ slot.source = .signal ⟨0⟩ := by
  let r := (Registry.builtin.declareAll "m" fieldClock.declarations).1
  have hchecks : (Registry.builtin.declareAll "m" fieldClock.declarations).2 = none
      ∧ (compile fieldClockPatch r {}).diagnostics = []
      ∧ (compile fieldClockPatch r {}).linked.any (fun l => l.program.slots.any fun slot =>
        slot.type.representation = .field ∧ slot.source = .signal ⟨0⟩) = true := by
    decide +kernel
  obtain ⟨hdeclared, hsilent, hlinked⟩ := hchecks
  -- the manifest holds no value, so that its text is read as the manifest
  have hload := Registry.load_compact (List.forall_mem_nil _) (List.forall_mem_nil _) hdeclared
  have hregistry : fieldClockRegistry = r := by rw [fieldClockRegistry, hload]
  rw [hregistry]
  obtain ⟨l, hl, hslots⟩ := (Option.any_eq_true _ _).1 hlinked
  obtain ⟨slot, hslot, hholds⟩ := List.any_eq_true.1 hslots
  exact ⟨.load .builtin hload, hsilent, l, hl, slot, hslot, of_decide_eq_true hholds⟩

end PatchGraph
