import Mathlib.Data.List.Nodup
import PatchGraph.Proofs.Compile.Clean
import PatchGraph.Proofs.Compile.Forms
import PatchGraph.Proofs.Compile.Naming
import PatchGraph.Proofs.Registry.Loaded

/-!
# States

A state is made only by the lowering of a block, together with the one signal that holds it. No other step touches states: they keep to
a regime of their own (`Regime.inert`). A lowering that fails may leave a state behind that no signal holds, and a block that is no state
boundary may get one, but either is an error. So in a program without errors states and the signals that hold them correspond
(`Builder.Owned`).
-/

namespace PatchGraph

namespace Builder

variable {b b' b'' : Builder}

/-- The states that signals hold, in the order of the signals. -/
def held (b : Builder) : List StateId := b.signals.toList.filterMap SignalExpr.state?

/-- The states and what holds them are the same. -/
structure SameStates (b b' : Builder) : Prop where
  states : b'.states = b.states
  held : b'.held = b.held

/-- There is one more state, of an owner, and one more signal that holds it. -/
structure OneMoreState (owner : BlockIx) (b b' : Builder) : Prop where
  states : ∃ c, b'.states = b.states.push ⟨owner, c⟩
  held : b'.held = b.held ++ [⟨b.states.size⟩]

/-- Each state is held by one signal, and its owner is one of those that may have a state. -/
structure Owned (MayOwn : BlockIx → Prop) (b : Builder) : Prop where
  held : b.held = (List.range b.states.size).map StateId.mk
  owners : ∀ cell ∈ b.states, MayOwn cell.owner

theorem SameStates.refl (b : Builder) : b.SameStates b := ⟨rfl, rfl⟩

/-- To leave the states twice is to leave them. -/
theorem SameStates.trans (h : b.SameStates b') (h' : b'.SameStates b'') : b.SameStates b'' :=
  ⟨h'.states.trans h.states, h'.held.trans h.held⟩

/-- Where a state was added there are more of them. -/
theorem OneMoreState.lt_size {owner : BlockIx} (h : OneMoreState owner b b') : b.states.size < b'.states.size := by
  obtain ⟨c, hc⟩ := h.states
  rw [hc, Array.size_push]
  exact Nat.lt_succ_self _

/-- A signal that is added is the last that can hold a state. -/
theorem held_push (b : Builder) (e : SignalExpr) : ({ b with signals := b.signals.push e } : Builder).held = b.held ++ e.state?.toList := by
  simp only [held, Array.toList_push, List.filterMap_append]
  cases h : e.state? with
  | none => simp [h]
  | some s => simp [h]

/-- A signal without a state is added. -/
theorem sameStates_push (b : Builder) {e : SignalExpr} (he : e.state? = none) :
    b.SameStates { b with signals := b.signals.push e } := by
  refine ⟨rfl, ?_⟩
  rw [held_push, he]
  exact List.append_nil _

variable {MayOwn : BlockIx → Prop}

/-- States stay owned by those who may when nothing touches them. -/
theorem Owned.sameStates (hb : b.Owned MayOwn) (h : b.SameStates b') : b'.Owned MayOwn := by
  refine ⟨?_, ?_⟩
  · rw [h.held, h.states]
    exact hb.held
  · rw [h.states]
    exact hb.owners

/-- One more state whose owner may own it, with its signal, keeps states and signals in correspondence. -/
theorem Owned.oneMoreState {owner : BlockIx} (hb : b.Owned MayOwn) (howner : MayOwn owner) (h : b.OneMoreState owner b') :
    b'.Owned MayOwn := by
  obtain ⟨c, hc⟩ := h.states
  refine ⟨?_, fun cell hcell => ?_⟩
  · rw [h.held, hb.held, hc, Array.size_push, List.range_succ, List.map_append]
    rfl
  · rw [hc] at hcell
    rcases Array.mem_push.1 hcell with hcell | rfl
    · exact hb.owners cell hcell
    · exact howner

/-- No state is held by two signals. -/
theorem Owned.nodup_held (hb : b.Owned MayOwn) : b.held.Nodup := by
  rw [hb.held]
  exact List.nodup_range.map fun i j h => StateId.mk.inj h

/-- No two signals hold the same state. -/
theorem Owned.unique (hb : b.Owned MayOwn) {i j : Nat} {e e' : SignalExpr} {s : StateId} (hi : b.signals.toList[i]? = some e)
    (hj : b.signals.toList[j]? = some e') (he : e.state? = some s) (he' : e'.state? = some s) : i = j := by
  have hpairs := List.pairwise_iff_getElem.1 (List.pairwise_filterMap.1 hb.nodup_held)
  obtain ⟨hilt, rfl⟩ := List.getElem?_eq_some_iff.1 hi
  obtain ⟨hjlt, rfl⟩ := List.getElem?_eq_some_iff.1 hj
  rcases Nat.lt_trichotomy i j with hlt | heq | hlt
  · exact absurd rfl (hpairs i j hilt hjlt hlt s he s he')
  · exact heq
  · exact absurd rfl (hpairs j i hjlt hilt hlt s he' s he)

/-- Every state is held by a signal, and no others are held. -/
theorem Owned.mem_held_iff (hb : b.Owned MayOwn) {s : StateId} : s ∈ b.held ↔ s.index < b.states.size := by
  rw [hb.held, List.mem_map]
  constructor
  · rintro ⟨i, hi, rfl⟩
    exact List.mem_range.1 hi
  · exact fun hs => ⟨s.index, List.mem_range.2 hs, rfl⟩

end Builder

/-- The regime under which states are left as they are. -/
def Regime.inert : Regime where
  Inv _ _ := True
  Le := Builder.SameStates
  Usable _ _ := True
  Bound _ _ := True

namespace Regime

variable {α ε : Type} {rs : List SlotId} {b : Builder}

/-- A step that leaves the states keeps to the inert regime. -/
theorem builds_inert {m : Build α} {Q : α → Builder → Prop} (h : b.SameStates (m.run b).2) (hq : Q (m.run b).1 (m.run b).2) :
    inert.Builds rs m b Q :=
  ⟨trivial, h, hq⟩

theorem raw_inert (b : Builder) (v : ValueRef) : inert.Raw b v := ⟨fun _ _ => trivial, False.elim⟩

/-- No elementary step touches the states. -/
theorem elementary_inert : inert.Elementary where
  refl := Builder.SameStates.refl
  trans h h' := h.trans h'
  mono _ _ := trivial
  steady := id
  slotType := False.elim
  intern _ _ := builds_inert ⟨rfl, rfl⟩ trivial
  signal _ _ he _ := builds_inert (Builder.sameStates_push _ he) trivial
  field _ _ _ := builds_inert ⟨rfl, rfl⟩ trivial
  event _ _ _ := builds_inert ⟨rfl, rfl⟩ trivial
  slotFor _ _ _ _ := builds_inert ⟨rfl, rfl⟩ trivial
  handle _ _ _ := builds_inert ⟨rfl, rfl⟩ trivial
  renderSink _ _ _ := builds_inert ⟨rfl, rfl⟩ trivial
  camera _ _ _ := builds_inert ⟨rfl, rfl⟩ trivial
  assert _ _ _ := builds_assert fun _ => ⟨trivial, rfl, rfl⟩

/-- To read a slot touches no state. -/
theorem readSlot_inert {s : SlotId} : inert.Builds rs (Build.readSlot s) b fun o b' => ∀ v ∈ o, inert.Raw b' v :=
  builds_readSlot elementary_inert trivial
    ⟨trivial, builds_inert (Builder.sameStates_push b rfl) trivial, builds_inert ⟨rfl, rfl⟩ trivial, builds_inert ⟨rfl, rfl⟩ trivial⟩

/-- The steps of edges touch no state. -/
theorem routed_inert {a : Analysis} (hr : a.registry.Standard) : inert.Routed a :=
  elementary_inert.routed hr (fun _ _ => raw_inert _ _) fun _ _ => readSlot_inert

/-- To reserve a slot touches no state. -/
theorem reserves_inert : inert.Reserves := fun _ _ => builds_inert ⟨rfl, rfl⟩ trivial

/-- To bind a slot touches no state. -/
theorem binds_inert : inert.Binds where
  mono _ _ := trivial
  bind {rs b s v source} _ _ _ _ _ := by
    refine builds_inert ?_ trivial
    rw [Build.run_bind]
    split <;> exact ⟨rfl, rfl⟩

/-- Lowered blocks stay as they are, whatever becomes of states. -/
theorem Good.inert_of {a : Analysis} {S : Scope} {v : Visited} {b b' : Builder} (hv : inert.Good a S v b) : inert.Good a S v b' :=
  ⟨trivial, fun x hx => (hv.outcomes x hx).imp (fun h => h) fun _ _ => raw_inert _ _, hv.forwards, hv.known,
    hv.distinct, False.elim⟩

/-- A step that leaves states as they are. -/
theorem BuildsExcept.sameStates {m : ExceptT ε Build α} {Q : α → Builder → Prop} (h : inert.BuildsExcept rs m b Q) :
    free.BuildsExcept rs m b fun x b' => b.SameStates b' ∧ Q x b' :=
  builds_free fun x hx => ⟨h.2.1, h.2.2 x hx⟩

end Regime

namespace LoweringKind

open Regime Lower

variable {site : Site} {inputs : Dict ValueRef} {b : Builder}

/-- A state is added at the end, for its owner, and no signal holds it yet. -/
theorem builds_state_free (b : Builder) (owner : BlockIx) (init : Value) :
    free.Builds [] (Build.state owner init) b fun s b' =>
      s = ⟨b.states.size⟩ ∧ (∃ c, b'.states = b.states.push ⟨owner, c⟩) ∧ b'.held = b.held :=
  builds_free ⟨rfl, ⟨_, rfl⟩, rfl⟩

/-- A block with a state makes it last, with the signal that holds it. -/
theorem oneMoreState_lowerStateful {expr : StateId → SignalId → Lower SignalExpr}
    (hexpr : ∀ s x b', inert.BuildsExcept [] (expr s x) b' fun e _ => e.state? = some s) :
    free.BuildsExcept [] (lowerStateful site inputs expr) b fun _ b' => b.OneMoreState site.block b' := by
  have E := elementary_inert
  have F := elementary_free
  refine builds_need_bind F trivial fun t _ => (builds_siteNumber E trivial site "init" .zero).sameStates.bind F fun init b₁ _ _ h₁ => ?_
  refine builds_need_bind F trivial fun v _ => ?_
  refine (builds_needed E (builds_asSignal E trivial (raw_inert b₁ v))).sameStates.bind F fun x b₂ _ _ h₂ => ?_
  have hsame := h₁.1.trans h₂.1
  refine (BuildsExcept.lift F (builds_state_free b₂ site.block (.float init))).bind F fun s b₃ _ _ h₃ => ?_
  obtain ⟨rfl, hstates, hheld⟩ := h₃
  refine (hexpr _ x b₃).sameStates.bind F fun e b₄ _ _ h₄ => builds_free fun _ _ => ⟨?_, ?_⟩
  · obtain ⟨c, hc⟩ := hstates
    refine ⟨c, ?_⟩
    rw [← hsame.states, ← hc]
    exact h₄.1.states
  · refine (Builder.held_push b₄ e).trans ?_
    rw [h₄.2, h₄.1.held, hheld, hsame.held, hsame.states]
    rfl

/-- A lowering that succeeds leaves states as they are, or it makes one and the signal that holds it. -/
theorem states_of_run {k : LoweringKind} {outputs : Dict ValueRef} (h : ((k.run site inputs).run.run b).1 = .ok outputs) :
    b.SameStates ((k.run site inputs).run.run b).2 ∨ b.OneMoreState site.block ((k.run site inputs).run.run b).2 := by
  have hstateless : k.isStateful = false → b.SameStates ((k.run site inputs).run.run b).2 := by
    intro hk
    have hrun : inert.BuildsExcept [] (k.run site inputs) b fun d b' => inert.Outputs site.outputs d b' :=
      builds_run_of_stateless elementary_inert trivial (fun _ _ => raw_inert _ _) hk site False.elim
    exact hrun.2.1
  have hpure : ∀ (e : SignalExpr) (s : StateId), e.state? = some s → ∀ b',
      inert.BuildsExcept [] (pure e : Lower SignalExpr) b' fun e _ => e.state? = some s :=
    fun e s he b' => .pure elementary_inert trivial he
  cases k with
  | delay => exact .inr ((oneMoreState_lowerStateful fun s x => hpure (.delay s x) s rfl).2.2 outputs h)
  | integrate => exact .inr ((oneMoreState_lowerStateful fun s x => hpure (.integrate s x) s rfl).2.2 outputs h)
  | sampleHold =>
    refine .inr ((oneMoreState_lowerStateful fun s x b' => ?_).2.2 outputs h)
    exact (builds_trigger elementary_inert trivial fun _ _ => raw_inert _ _).bind elementary_inert fun o b'' _ _ _ =>
      hpure (.sampleHold s x o) s rfl b''
  | _ => exact .inl (hstateless rfl)

end LoweringKind

/-! ## States of a clean emission -/

namespace Analysis

variable {a : Analysis} {slots : BusSlots}

/-- A block that may have a state: one whose type is declared as a boundary. -/
def MayOwn (a : Analysis) (ix : BlockIx) : Prop := ∃ d, a.patch.decl? a.registry ix = some d ∧ d.stateBoundary = true

/-- Blocks that were lowered, and states that each have a boundary as their owner and one signal that holds them. -/
structure OwnedSoFar (a : Analysis) (slots : BusSlots) (v : Visited) (b : Builder) : Prop where
  good : Regime.inert.Good a (.whole a slots) v b
  owned : b.Owned a.MayOwn

/-- One more block that was lowered, by a step that leaves states as they are. -/
theorem OwnedSoFar.add {α : Type} {m : Visit α} {v : Visited} {w : Workbench} {ix : BlockIx} {o : α → BlockOutcome}
    (h : Regime.inert.Visits a (.whole a slots) m v w fun x b' => Regime.inert.Outcome a ix (o x) b') (hw : w.builder.Owned a.MayOwn) :
    let s := (m.run v).run w
    a.OwnedSoFar slots { s.1.2 with outcomes := s.1.2.outcomes ++ [(ix, o s.1.1)] } s.2.builder :=
  ⟨h.good.add h.result, hw.sameStates h.le⟩

section Step

variable (hr : a.registry.Standard) {ix : BlockIx} {v : Visited} {w : Workbench}

include hr

/-- The lowering of one more block: it makes a state only if the block is a boundary. -/
theorem OwnedSoFar.runLowering {b : Block} {entry : BlockEntry} {l : Lowering} {ports : PortTypes} {inputs : Dict ValueRef}
    (hb : a.patch.block? ix = some b) (hentry : a.entry? ix = some entry) (hl : a.lowering? ix = some l)
    (hports : a.types.ports? ix = some ports) (hin : Regime.inert.Inputs a ix inputs w.builder)
    (h : a.OwnedSoFar slots v w.builder)
    (hclean : (Visit.runLowering entry.decl l ⟨ix, b.id, b.params, ports.outputs, a.time.model⟩ b inputs).Clean v w) :
    let s := ((Visit.runLowering entry.decl l ⟨ix, b.id, b.params, ports.outputs, a.time.model⟩ b inputs).run v).run w
    a.OwnedSoFar slots { s.1.2 with outcomes := s.1.2.outcomes ++ [(ix, s.1.1)] } s.2.builder := by
  obtain ⟨outputs, hok, hboundary, hrun⟩ := hclean.runLowering hb
  rw [hrun]
  obtain ⟨k, rfl⟩ := a.exists_kind hr hl
  have howned : Builder.Owned a.MayOwn ((k.run ⟨ix, b.id, b.params, ports.outputs, a.time.model⟩ inputs).run.run w.builder).2 := by
    rcases LoweringKind.states_of_run hok with hsame | hmore
    · exact h.owned.sameStates hsame
    · exact h.owned.oneMoreState ⟨entry.decl, Visit.decl?_of_entry hentry, hboundary hmore.lt_size⟩ hmore
  refine OwnedSoFar.add (o := id) (Regime.visits_conclude (Regime.routed_inert hr) b hports (fun e he => ?_) (fun d _ => ?_) ?_) howned
  · obtain ⟨t, ht, htyped⟩ := hin e he
    exact ⟨t, ht, Regime.raw_inert _ _, htyped.2⟩
  · exact ⟨fun _ _ => Regime.raw_inert _ _, False.elim⟩
  · exact h.good.inert_of

/-- One more block. -/
theorem OwnedSoFar.lowerBlock (hclean : (Visit.lowerBlock a slots ix).Clean v w) (h : a.OwnedSoFar slots v w.builder) :
    let s := ((Visit.lowerBlock a slots ix).run v).run w
    a.OwnedSoFar slots { s.1.2 with outcomes := s.1.2.outcomes ++ [(ix, s.1.1)] } s.2.builder := by
  have T := Regime.routed_inert hr
  rcases hclean.lowerBlock with ⟨-, hrun⟩ | ⟨b, entry, l, ports, inputs, hb, hentry, hl, hports, -, hinputs, hlowering, hrun⟩
  · rw [hrun]
    exact ⟨h.good.add (.skipped ix _), h.owned⟩
  · rw [hrun]
    have hresolve := Regime.visits_resolveInputs T (fun _ _ => Regime.reserves_inert) (fun _ x _ => Scope.admits_whole a slots x)
      entry.decl.inputs (Regime.Inputs.empty ix _) h.good
    exact OwnedSoFar.runLowering hr hb hentry hl hports (hresolve.result inputs hinputs)
      ⟨hresolve.good, h.owned.sameStates hresolve.le⟩ hlowering

end Step

/-- The states of a clean emission. -/
theorem owned_emission (hr : a.registry.Standard) (hbuses : a.types.buses.length = a.patch.buses.length) {consts : Pool}
    {options : Options} (hclean : hasErrors (a.emission consts options).diagnostics = false) :
    (a.emission consts options).afterLink.builder.Owned a.MayOwn := by
  have T := Regime.routed_inert hr
  let start : Builder := { consts, timeModel := some a.time.model }
  have hempty : start.Owned a.MayOwn := ⟨rfl, nofun⟩
  have hinv : Regime.inert.Inv [] start := trivial
  obtain ⟨-, hslots⟩ := Regime.reserved_reserveBusSlots T Regime.reserves_inert a.types.buses hinv
  obtain ⟨v, hv, hforwards, houtcomes, -⟩ := exists_visited (I := a.OwnedSoFar (a.emission consts options).slots) hclean
    (fun h => ⟨_, h.good⟩) (fun ix v w => OwnedSoFar.lowerBlock hr)
    ⟨Regime.good_start (w := { builder := _ }) trivial, hempty.sameStates hslots⟩
  have hlowers := hv.good.lowers houtcomes
  have hfs : Regime.inert.Forwards a (a.emission consts options).lowered.forwards (a.emission consts options).afterBlocks.builder := by
    rw [hforwards]
    exact ⟨hv.good.forwards, False.elim⟩
  obtain ⟨b, hprepared, hsame⟩ := Regime.prepared_of_lowers T Regime.binds_inert consts options hbuses rfl trivial hlowers hfs
    False.elim
  rw [hprepared.builder, Linking.run_pushSteps]
  exact (hv.owned.sameStates hsame).sameStates ⟨rfl, rfl⟩

end Analysis

/-- A program that was compiled without an error has states only for blocks that are state boundaries, and its states and the delays,
integrals and samples in it correspond. -/
theorem states_owned_unshared {p : Patch} {r : Registry} {options : Options} (hr : r.Loaded)
    (h : hasErrors (compile p r options).diagnostics = false) :
    ∃ l, (compile p r options).linked = some l
      ∧ (∀ cell ∈ l.program.states, ∃ d, (p.normalize r).1.decl? r cell.owner = some d ∧ d.stateBoundary = true)
      ∧ (∀ s : StateId, s.index < l.program.states.length → ∃! i : Nat, ∃ e, l.program.signals[i]? = some e ∧ e.state? = some s)
      ∧ ∀ e ∈ l.program.signals, ∀ s, e.state? = some s → s.index < l.program.states.length := by
  obtain ⟨time, hpasses, hclean⟩ := clean_compile h
  have howned := Analysis.owned_emission (a := p.analysis r time) hr.standard (List.length_map _) hclean
  have hprogram := (p.analysis r time).program_emission (p.normalize r).2 options
  refine ⟨_, (hpasses.compile_eq options).1, ?_⟩
  generalize (p.analysis r time).emission (p.normalize r).2 options = emission at howned hprogram
  rw [hprogram]
  refine ⟨fun cell hcell => ?_, fun s hs => ?_, fun e he s hs => ?_⟩
  · exact howned.owners cell (Array.mem_toList_iff.1 hcell)
  · obtain ⟨e, he, hstate⟩ := List.mem_filterMap.1 (howned.mem_held_iff.2 hs)
    obtain ⟨i, hi⟩ := List.getElem?_of_mem he
    refine ⟨i, ⟨e, hi, hstate⟩, ?_⟩
    rintro j ⟨e', hj, hstate'⟩
    exact howned.unique hj hi hstate' hstate
  · exact howned.mem_held_iff.1 (List.mem_filterMap.2 ⟨e, he, hs⟩)

/-- A delay that feeds itself has the only state of its program. -/
theorem states_owned_unshared_delayLoop :
    hasErrors (compile (delayLoop (.float .one)) .builtin {}).diagnostics = false
      ∧ ∃ l, (compile (delayLoop (.float .one)) .builtin {}).linked = some l ∧ l.program.states.length = 1
        ∧ ∃! i : Nat, ∃ e, l.program.signals[i]? = some e ∧ e.state? = some ⟨0⟩ := by
  have hclean : hasErrors (compile (delayLoop (.float .one)) .builtin {}).diagnostics = false := by decide +kernel
  have hlength : (compile (delayLoop (.float .one)) .builtin {}).linked.all (·.program.states.length = 1) = true := by decide +kernel
  obtain ⟨l, hl, -, hunique, -⟩ := states_owned_unshared .builtin hclean
  rw [hl] at hlength
  have hone : l.program.states.length = 1 := of_decide_eq_true hlength
  refine ⟨hclean, l, hl, hone, hunique ⟨0⟩ ?_⟩
  rw [hone]
  exact Nat.one_pos

end PatchGraph
