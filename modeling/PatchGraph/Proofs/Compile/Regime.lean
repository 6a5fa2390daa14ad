import PatchGraph.Proofs.Compile.Findings
import PatchGraph.Proofs.Program.Lowerings

/-!
# Lowering blocks under a regime

If the elementary steps of building keep to a regime, and so do the transforms of the registry (`Regime.Routed`), then resolving the
inputs of a block does; if also the lowerings of the registry keep to it (`Regime.Lawful`), then lowering blocks does: one walk through
the stage, made here for all regimes. What a block is lowered from is bounded by a `Scope`: the slots that may be read, the blocks that
were lowered before, and the outputs to come that slots may be reserved for.
-/

namespace PatchGraph

namespace Analysis

/-- What a lowering is told about a block: the outputs that are declared, and the time of the patch. -/
structure IsSite (a : Analysis) (ix : BlockIx) (site : Site) : Prop where
  outputs : ∃ ports, a.types.ports? ix = some ports ∧ site.outputs = ports.outputs
  time : site.time = a.time.model

/-- The outputs of all blocks whose form is given by a lowering are declared with a type that asks for that form. -/
def Truthful (a : Analysis) : Prop :=
  ∀ ix k ports, a.lowering? ix = some (.kind k) → a.types.ports? ix = some ports → k.Truthful a.time.model ports.outputs

/-- With a registry that knows no other lowerings, that of a block is known by name. -/
theorem exists_kind {a : Analysis} (hr : a.registry.Standard) {ix : BlockIx} {l : Lowering} (hl : a.lowering? ix = some l) :
    ∃ k, l = .kind k := by
  obtain ⟨e, he, hlowering⟩ := Option.bind_eq_some_iff.1 hl
  obtain ⟨x, -, hx⟩ := Option.bind_eq_some_iff.1 he
  exact hr.exists_kind (Option.bind_eq_some_iff.2 ⟨e, hx, hlowering⟩)

end Analysis

namespace Regime

variable {α β : Type} (R : Regime)

/-- A step of emitting keeps to the regime, and what it returns satisfies a condition afterwards. -/
def Emits (reserved : List SlotId) (m : Emit α) (w : Workbench) (Q : α → Workbench → Prop) : Prop :=
  R.Inv reserved (m.run w).2.builder ∧ R.Le w.builder (m.run w).2.builder ∧ Q (m.run w).1 (m.run w).2

/-- The steps that bring values to inputs keep to a regime. -/
structure Routed (a : Analysis) : Prop extends R.Elementary where
  fallback : ∀ {rs b d t}, R.Inv rs b → d ∈ a.patch.defaults → R.Raw b (fallbackValue d.constant t)
  readSlot : ∀ {rs b s}, R.Inv rs b → s ∈ rs → R.Builds rs (Build.readSlot s) b fun o b' => ∀ v ∈ o, R.Raw b' v
  chain : ∀ {rs b v} (e), R.Inv rs b → R.Raw b v → R.BuildsExcept rs (a.registry.applyChain e v) b fun w b' => R.Raw b' w

/-- The steps of emitting the program of a patch keep to a regime, apart from those that reserve a slot, give a slot its source or lay
down the schedule. -/
structure Lawful (a : Analysis) : Prop extends R.Routed a where
  lowering : ∀ {rs b ix l inputs site}, a.lowering? ix = some l → a.IsSite ix site → R.Inv rs b → R.RawAll b inputs →
    R.BuildsExcept rs (l.run site inputs) b fun d b' => R.Outputs site.outputs d b'

/-- Reserving a slot keeps to a regime. -/
def Reserves : Prop :=
  ∀ {rs b} (t), R.Inv rs b → R.Builds (rs ++ [⟨b.slots.size⟩]) (Build.reserve t) b fun _ _ => True

/-- Giving a reserved slot its source keeps to a regime. -/
structure Binds : Prop where
  mono : ∀ {b b' s}, R.Le b b' → R.Bound s b → R.Bound s b'
  bind : ∀ {rs b s v source}, R.Inv rs b → s ∈ rs → R.Raw b v → v.source? = some source →
    (R.Strict → ∃ t, b.slotType? s = some t ∧ t.Fits v) → R.Builds rs (Build.bind s source) b fun _ b' => R.Bound s b'

/-- Laying down the schedule keeps to a regime. -/
def Schedules : Prop := ∀ {rs b} (s), R.Inv rs b → R.Builds rs (Build.step s) b fun _ _ => True

variable {R}

section Standard

variable {a : Analysis} (hr : a.registry.Standard)
  (hfallback : ∀ {rs b d t}, R.Inv rs b → d ∈ a.patch.defaults → R.Raw b (fallbackValue d.constant t))
  (hread : ∀ {rs b s}, R.Inv rs b → s ∈ rs → R.Builds rs (Build.readSlot s) b fun o b' => ∀ v ∈ o, R.Raw b' v)

include hr hfallback hread

/-- With a registry that knows no other transforms, the elementary steps decide. -/
theorem Elementary.routed (L : R.Elementary) : R.Routed a where
  toElementary := L
  fallback := hfallback
  readSlot := hread
  chain e hb hv := hr.builds_applyChain L hb hv e

/-- With a registry that knows no other lowerings either, so do they for lowerings. -/
theorem Stateful.lawful (L : R.Stateful) (htruthful : R.Strict → a.Truthful) : R.Lawful a where
  toRouted := L.toElementary.routed hr hfallback hread
  lowering hl hsite hb hin := by
    obtain ⟨k, rfl⟩ := a.exists_kind hr hl
    obtain ⟨ports, hports, houtputs⟩ := hsite.outputs
    refine k.builds_run L hb hin _ fun hstrict => ?_
    rw [houtputs, hsite.time]
    exact htruthful hstrict _ k ports hl hports

end Standard

section Customs

/-- The lowerings and transforms of a registry that are not known by name keep to a regime, whatever they return. -/
structure Customs (R : Regime) (r : Registry) : Prop where
  lowerings : ∀ e ∈ r.blocks.values, ∀ run, e.lowering = some (.custom run) → ∀ site inputs {rs b}, R.Inv rs b →
    R.Builds rs (run site inputs).run b fun _ _ => True
  transforms : ∀ kind, ∀ e ∈ (r.transforms kind).values, ∀ run, e.transform = some (.custom run) → ∀ v params {rs b}, R.Inv rs b →
    R.Builds rs (run v params).run b fun _ _ => True

variable {a : Analysis} (hr : R.Customs a.registry) (L : R.Stateful) (hstrict : ¬R.Strict) (hraw : ∀ b v, R.Raw b v)

include hr L hraw

/-- A step of an edge keeps to a regime that the transforms of the registry keep to. -/
theorem Customs.builds_applyStep {rs : List SlotId} {b : Builder} {v : ValueRef} (hb : R.Inv rs b) (kind : TransformKind) (s : Step) :
    R.Builds rs (a.registry.applyStep kind s v) b fun o b' => ∀ w ∈ o, R.Raw b' w := by
  unfold Registry.applyStep
  split
  · exact .pure_none L.toElementary hb
  · rename_i t ht
    obtain ⟨e, he, ht⟩ := Option.bind_eq_some_iff.1 ht
    cases t with
    | rule rule => exact rule.builds_run L.toElementary hb (hraw b v) s.params
    | custom run =>
      obtain ⟨hinv, hle, -⟩ := hr.transforms kind e (Dict.mem_values_of_get? he) run ht v s.params hb
      exact ⟨hinv, hle, fun _ _ => hraw _ _⟩

include hstrict

/-- All steps keep to a regime that asks nothing of values, if the elementary steps and those that are not known by name do. -/
theorem Customs.lawful (hread : ∀ {rs b s}, R.Inv rs b → R.Readable rs s b) : R.Lawful a where
  toElementary := L.toElementary
  fallback _ _ := hraw _ _
  readSlot hb _ := builds_readSlot L.toElementary hb (hread hb)
  chain e hb hv := Registry.builds_applyChain L.toElementary (fun hb _ kind s => hr.builds_applyStep L hraw hb kind s) hb hv e
  lowering {rs b ix l inputs site} hl _ hb hin := by
    obtain ⟨entry, hentry, hl⟩ := Option.bind_eq_some_iff.1 hl
    obtain ⟨block, -, hentry⟩ := Option.bind_eq_some_iff.1 hentry
    cases l with
    | kind k => exact k.builds_run L hb hin site fun h => absurd h hstrict
    | custom run =>
      obtain ⟨hinv, hle, -⟩ := hr.lowerings entry (Dict.mem_values_of_get? hentry) run hl site inputs hb
      exact ⟨hinv, hle, fun _ _ => ⟨fun _ _ => hraw _ _, fun h => absurd h hstrict⟩⟩

end Customs

variable {a : Analysis} {rs : List SlotId} (L : R.Routed a)

include L

/-! ## Steps of emitting -/

/-- To emit nothing keeps to a regime. -/
theorem Emits.pure {w : Workbench} {Q : α → Workbench → Prop} {x : α} (hw : R.Inv rs w.builder) (h : Q x w) :
    R.Emits rs (pure x) w Q :=
  ⟨hw, L.refl w.builder, h⟩

/-- Two steps of emitting keep to a regime if the second does after whatever the first leaves. -/
theorem Emits.bind {m : Emit α} {f : α → Emit β} {w : Workbench} {P : α → Workbench → Prop} {Q : β → Workbench → Prop}
    (h : R.Emits rs m w P)
    (hf : ∀ x w', R.Inv rs w'.builder → R.Le w.builder w'.builder → P x w' → R.Emits rs (f x) w' Q) :
    R.Emits rs (m >>= f) w Q := by
  obtain ⟨hinv, hle, hq⟩ := hf _ _ h.1 h.2.1 h.2.2
  exact ⟨hinv, L.trans h.2.1 hle, hq⟩

/-- To report keeps to every regime, since nothing is built. -/
theorem Emits.report (d : Diagnostic) {w : Workbench} (hw : R.Inv rs w.builder) : R.Emits rs (Emit.report d) w fun _ _ => True :=
  ⟨hw, L.refl w.builder, trivial⟩

omit L in
/-- A step of building is emitted as it is. -/
theorem Emits.build {step : Build α} {w : Workbench} {Q : α → Builder → Prop} (h : R.Builds rs step w.builder Q) :
    R.Emits rs (Emit.build step) w fun x w' => Q x w'.builder :=
  h

/-- A value that passes its edge and was taken to a type. -/
theorem emits_finishTerm (edge : Option Edge) (t : ValueType) {v : ValueRef} {w : Workbench} (hw : R.Inv rs w.builder)
    (hv : R.Raw w.builder v) :
    R.Emits rs (finishTerm a.registry edge t v) w fun o w' => ∀ x ∈ o, R.Typed t w'.builder x := by
  cases edge with
  | none => exact Emits.build (typed_coerce L.toElementary hw hv t)
  | some e =>
    refine Emits.bind L (Emits.build (L.chain e hw hv)) fun r w' hw' _ hr => ?_
    cases r with
    | ok x => exact Emits.build (typed_coerce L.toElementary hw' (hr x rfl) t)
    | error err =>
      exact Emits.bind L (Emits.report L _ hw') fun _ w'' hw'' _ _ =>
        Emits.pure L hw'' fun x hx => absurd hx (Option.not_mem_none x)

/-- The value of a bus whose slot may be read. -/
theorem builds_readBus {slots : BusSlots} {bus : BusIx} {b : Builder} (hbus : ∀ s, slots[bus.index]?.join = some s → s ∈ rs)
    (hb : R.Inv rs b) : R.Builds rs (readBus slots bus) b fun o b' => ∀ x ∈ o, R.Raw b' x := by
  unfold readBus
  split
  · exact Builds.pure_none L.toElementary hb
  · rename_i s hs
    exact L.readSlot hb (hbus s hs)

end Regime

/-! ## Scopes -/

/-- An output that a slot can be reserved for: its block has a lowering, and it lives in a slot. -/
def Analysis.CanForward (a : Analysis) (f : ForwardSlot) : Prop :=
  (a.lowering? f.block).isSome ∧ ∃ t, a.types.outputType? f.block f.port = some t ∧ t.isSlotted = true

/-- A slot is only reserved for an output that has a type. -/
theorem Analysis.CanForward.exists_type {a : Analysis} {f : ForwardSlot} (h : a.CanForward f) :
    ∃ t, a.types.outputType? f.block f.port = some t := by
  obtain ⟨-, t, ht, -⟩ := h
  exact ⟨t, ht⟩

/-- A default that a writer stands for is one of the patch. -/
def Writer.Grounded (n : Normalized) : Writer → Prop
  | .fallback _ c => ∃ d ∈ n.defaults, d.constant = c
  | .wire _ _ _ _ | .bus _ _ _ => True

/-- The writers of an input come from the patch. -/
theorem Normalized.grounded_of_mem_writers {n : Normalized} {b : BlockIx} {port : String} {w : Writer}
    (h : w ∈ n.writers b port) : w.Grounded n := by
  unfold writers at h
  rw [List.mem_mergeSort, List.mem_append] at h
  rcases h with h | h
  · obtain ⟨e, -, he⟩ := List.mem_filterMap.1 h
    unfold writerOf? at he
    split at he
    all_goals
      obtain ⟨x, -, rfl⟩ := Option.map_eq_some_iff.1 he
      trivial
  · obtain ⟨d, hd, rfl⟩ := Option.map_eq_some_iff.1 (Option.mem_toList.1 h)
    exact ⟨d, List.mem_reverse.1 (List.mem_of_find?_eq_some hd), rfl⟩

/-- What blocks may be lowered from. -/
structure Scope where
  /-- The slots that may be read. -/
  base : List SlotId
  /-- The blocks that were lowered before. -/
  Known : BlockIx → Prop
  /-- The outputs to come that slots may be reserved for. -/
  Forward : ForwardSlot → Prop

namespace Scope

/-- A writer whose value is in scope: a wire from a block that was lowered before or from an output that a slot may be reserved for, or
a bus whose slot may be read. -/
def Admits (S : Scope) (a : Analysis) (slots : BusSlots) : Writer → Prop
  | .wire _ _ b port => S.Known b ∨ ∀ slot, a.CanForward ⟨slot, b, port⟩ → S.Forward ⟨slot, b, port⟩
  | .bus _ _ b => ∀ s, slots[b.index]?.join = some s → s ∈ S.base
  | .fallback _ _ => True

/-- The scope of all blocks of a patch: every bus may be read, and a slot may be reserved for every output. -/
def whole (a : Analysis) (slots : BusSlots) : Scope := ⟨slots.filterMap id, fun _ => False, a.CanForward⟩

/-- The slot of a bus is one of the reserved slots. -/
theorem mem_base_of_bus {slots : BusSlots} {bus : BusIx} {s : SlotId} (h : slots[bus.index]?.join = some s) :
    s ∈ slots.filterMap id :=
  List.mem_filterMap.2 ⟨some s, List.mem_of_getElem? (Option.join_eq_some_iff.1 h), rfl⟩

/-- The scope of a whole patch admits every writer. -/
theorem admits_whole (a : Analysis) (slots : BusSlots) (x : Writer) : (whole a slots).Admits a slots x := by
  cases x with
  | wire edge edgeId b port => exact Or.inr fun _ h => h
  | bus edge edgeId b => exact fun s hs => mem_base_of_bus hs
  | fallback id c => trivial

end Scope

/-! ## Lowering blocks -/

namespace Regime

variable {α β : Type} (R : Regime) (a : Analysis)

/-- The inputs of a block, each taken to its type. -/
def Inputs (ix : BlockIx) (d : Dict ValueRef) (b : Builder) : Prop :=
  ∀ e ∈ d.entries, ∃ t, a.types.inputType? ix e.1 = some t ∧ R.Typed t b e.2

/-- What holds of a block after its lowering. -/
structure Outcome (ix : BlockIx) (o : BlockOutcome) (b : Builder) : Prop where
  inputs : R.Inputs a ix o.inputs b
  outputs : ∀ d, o.outputs? = some d → ∃ ports, a.types.ports? ix = some ports ∧ R.Outputs ports.outputs d b

/-- What holds while blocks are lowered in a scope. -/
structure Good (S : Scope) (v : Visited) (b : Builder) : Prop where
  inv : R.Inv (S.base ++ v.forwards.map (·.slot)) b
  outcomes : ∀ x ∈ v.outcomes, R.Outcome a x.1 x.2 b
  forwards : ∀ f ∈ v.forwards, S.Forward f
  known : ∀ ix, S.Known ix → (v.outcomes.lookup ix).isSome = true
  distinct : (v.forwards.map fun f => (f.block, f.port)).Nodup
  reserved : R.Steady → ∀ f ∈ v.forwards, ∃ t, a.types.outputType? f.block f.port = some t ∧ b.slotType? f.slot = some t

/-- A step of lowering a block keeps to the regime and leaves the blocks that were lowered before as they are, and what it returns
satisfies a condition afterwards. -/
structure Visits (S : Scope) (m : Visit α) (v : Visited) (w : Workbench) (Q : α → Builder → Prop) : Prop where
  good : R.Good a S ((m.run v).run w).1.2 ((m.run v).run w).2.builder
  outcomes : ((m.run v).run w).1.2.outcomes = v.outcomes
  le : R.Le w.builder ((m.run v).run w).2.builder
  result : Q ((m.run v).run w).1.1 ((m.run v).run w).2.builder

variable {R a} {S : Scope} {v : Visited} {w : Workbench}

theorem Inputs.empty (ix : BlockIx) (b : Builder) : R.Inputs a ix {} b := fun _ he => absurd he List.not_mem_nil

/-- One more input of the right type. -/
theorem Inputs.insert {ix : BlockIx} {d : Dict ValueRef} {b : Builder} {port : String} {t : ValueType} {x : ValueRef}
    (hd : R.Inputs a ix d b) (ht : a.types.inputType? ix port = some t) (hx : R.Typed t b x) :
    R.Inputs a ix (d.insert port x) b := by
  intro e he
  rcases Dict.mem_place he with rfl | he
  · exact ⟨t, ht, hx⟩
  · exact hd e he

/-- Resolved inputs are usable as they are. -/
theorem Inputs.rawAll {ix : BlockIx} {d : Dict ValueRef} {b : Builder} (hd : R.Inputs a ix d b) : R.RawAll b d := by
  intro x hx
  obtain ⟨e, he, rfl⟩ := List.mem_map.1 hx
  obtain ⟨t, -, hv⟩ := hd e he
  exact hv.1

/-- The outputs of a block that was lowered are usable. -/
theorem Outcome.raw {ix : BlockIx} {o : BlockOutcome} {b : Builder} {d : Dict ValueRef} (ho : R.Outcome a ix o b)
    (hd : o.outputs? = some d) : R.RawAll b d := by
  obtain ⟨ports, -, hout⟩ := ho.outputs d hd
  exact hout.1

/-- A block without outputs. -/
theorem Outcome.of_inputs {ix : BlockIx} {o : BlockOutcome} {b : Builder} (hin : R.Inputs a ix o.inputs b)
    (hnone : o.outputs? = none) : R.Outcome a ix o b :=
  ⟨hin, fun _ hd => nomatch hnone.symm.trans hd⟩

/-- A block that keeps to a regime keeps to any that asks no more of values. -/
theorem Outcome.imp {R' : Regime} {ix : BlockIx} {o : BlockOutcome} {b b' : Builder} (hstrict : R'.Strict → R.Strict)
    (h : ∀ v, R.Raw b v → R'.Raw b' v) (ho : R.Outcome a ix o b) : R'.Outcome a ix o b' := by
  refine ⟨fun e he => ?_, fun d hd => ?_⟩
  · obtain ⟨t, ht, hraw, hfits⟩ := ho.inputs e he
    exact ⟨t, ht, h _ hraw, hfits⟩
  · obtain ⟨ports, hports, hraw, hfits⟩ := ho.outputs d hd
    exact ⟨ports, hports, fun v hv => h v (hraw v hv), fun hs => hfits (hstrict hs)⟩

section Routes

variable (L : R.Routed a)

include L

/-- Resolved inputs stay so when more is built. -/
theorem Inputs.mono {ix : BlockIx} {d : Dict ValueRef} {b b' : Builder} (h : R.Le b b') (hd : R.Inputs a ix d b) :
    R.Inputs a ix d b' := by
  intro e he
  obtain ⟨t, ht, hv⟩ := hd e he
  exact ⟨t, ht, L.typed_mono h hv⟩

/-- What became of a block stays so when more is built. -/
theorem Outcome.mono {ix : BlockIx} {o : BlockOutcome} {b b' : Builder} (h : R.Le b b') (ho : R.Outcome a ix o b) :
    R.Outcome a ix o b' :=
  ho.imp (fun h => h) fun _ hv => L.raw_mono h hv

omit L in
/-- A block that was lowered is one more. -/
theorem Good.add {b : Builder} {ix : BlockIx} {o : BlockOutcome} (hv : R.Good a S v b) (ho : R.Outcome a ix o b) :
    R.Good a S { v with outcomes := v.outcomes ++ [(ix, o)] } b := by
  refine ⟨hv.inv, List.forall_mem_append.2 ⟨hv.outcomes, List.forall_mem_singleton.2 ho⟩, hv.forwards, fun x hx => ?_, hv.distinct,
    hv.reserved⟩
  rw [List.lookup_append, Option.isSome_or, hv.known x hx, Bool.true_or]

/-- Lowered blocks stay as they are when the builder changes. -/
theorem Good.mono {b b' : Builder} (hv : R.Good a S v b) (h : R.Le b b')
    (hinv : R.Inv (S.base ++ v.forwards.map (·.slot)) b') : R.Good a S v b' := by
  refine ⟨hinv, fun x hx => Outcome.mono L h (hv.outcomes x hx), hv.forwards, hv.known, hv.distinct, fun hsteady f hf => ?_⟩
  obtain ⟨t, ht, hslot⟩ := hv.reserved hsteady f hf
  exact ⟨t, ht, L.slotType hsteady h hslot⟩

/-- A visit that does nothing keeps to the scope. -/
theorem Visits.pure {Q : α → Builder → Prop} {x : α} (hv : R.Good a S v w.builder) (h : Q x w.builder) :
    R.Visits a S (pure x) v w Q :=
  ⟨hv, rfl, L.refl w.builder, h⟩

/-- Two visits keep to the scope if the second does after whatever the first leaves. -/
theorem Visits.bind {m : Visit α} {f : α → Visit β} {P : α → Builder → Prop} {Q : β → Builder → Prop}
    (h : R.Visits a S m v w P)
    (hf : ∀ x v' w', R.Good a S v' w'.builder → R.Le w.builder w'.builder → P x w'.builder →
      R.Visits a S (f x) v' w' Q) :
    R.Visits a S (m >>= f) v w Q := by
  obtain ⟨hgood, hsame, hle, hq⟩ := hf _ _ _ h.good h.le h.result
  exact ⟨hgood, hsame.trans h.outcomes, L.trans h.le hle, hq⟩

omit L in
/-- To look at what was visited changes nothing. -/
theorem Visits.get_bind {f : Visited → Visit α} {Q : α → Builder → Prop} (h : R.Visits a S (f v) v w Q) :
    R.Visits a S (get >>= f) v w Q :=
  ⟨h.good, h.outcomes, h.le, h.result⟩

/-- A visit without a result promises nothing about it. -/
theorem Visits.pure_none {Q : α → Builder → Prop} (hv : R.Good a S v w.builder) :
    R.Visits a S (Pure.pure none) v w fun o b' => ∀ x ∈ o, Q x b' :=
  Visits.pure L hv fun x hx => absurd hx (Option.not_mem_none x)

/-- A step of emitting keeps to the scope if it builds under the slots that are reserved so far. -/
theorem Visits.lift {m : Emit α} {Q : α → Builder → Prop} (hv : R.Good a S v w.builder)
    (h : R.Emits (S.base ++ v.forwards.map (·.slot)) m w fun x w' => Q x w'.builder) : R.Visits a S (liftM m) v w Q :=
  ⟨hv.mono L h.2.1 h.1, rfl, h.2.1, h.2.2⟩

/-- So does a step of building. -/
theorem Visits.build {step : Build α} {Q : α → Builder → Prop} (hv : R.Good a S v w.builder)
    (h : R.Builds (S.base ++ v.forwards.map (·.slot)) step w.builder Q) : R.Visits a S (Visit.build step) v w Q :=
  Visits.lift L hv (Emits.build h)

/-- To report keeps to every scope. -/
theorem Visits.report (d : Diagnostic) (hv : R.Good a S v w.builder) : R.Visits a S (Visit.report d) v w fun _ _ => True :=
  Visits.lift L hv (Emits.report L d hv.inv)

/-- Reserving a slot for an output that has none makes it one of the reserved slots. -/
theorem visits_forward (hreserve : R.Reserves) {b : BlockIx} {port : String} {t : ValueType}
    (ht : a.types.outputType? b port = some t) (hnew : (v.forwards.find? fun f => f.block = b ∧ f.port = port) = none)
    (hf : S.Forward ⟨⟨w.builder.slots.size⟩, b, port⟩) (hv : R.Good a S v w.builder) :
    R.Visits a S (Visit.forward b port t) v w fun o b' => ∀ x ∈ o, R.Raw b' x := by
  obtain ⟨hinv, hle, -⟩ := hreserve t hv.inv
  let f : ForwardSlot := ⟨⟨w.builder.slots.size⟩, b, port⟩
  have hgood : R.Good a S { v with forwards := v.forwards ++ [f] } ((Build.reserve t).run w.builder).2 := by
    refine ⟨?_, fun x hx => Outcome.mono L hle (hv.outcomes x hx), List.forall_mem_append.2 ⟨hv.forwards, ?_⟩, hv.known, ?_,
      fun hsteady => List.forall_mem_append.2 ⟨fun g hg => ?_, ?_⟩⟩
    · rwa [List.map_append, ← List.append_assoc]
    · exact List.forall_mem_singleton.2 hf
    · rw [List.map_append]
      refine List.nodup_append.2 ⟨hv.distinct, List.pairwise_singleton _ _, List.forall_mem_map.2 fun g hg x hx heq => ?_⟩
      obtain ⟨hblock, hport⟩ : g.block = b ∧ g.port = port := Prod.mk.inj (heq.trans (List.mem_singleton.1 hx))
      simpa [hblock, hport] using List.find?_eq_none.1 hnew g hg
    · obtain ⟨u, hu, hslot⟩ := hv.reserved hsteady g hg
      exact ⟨u, hu, L.slotType hsteady hle hslot⟩
    · exact List.forall_mem_singleton.2 ⟨t, ht, Build.slotType?_reserve w.builder t⟩
  have hmem : f.slot ∈ S.base ++ (v.forwards ++ [f]).map (·.slot) := by simp
  obtain ⟨hgood', hsame, hle', hq⟩ := Visits.build L (w := { w with builder := ((Build.reserve t).run w.builder).2 }) hgood
    (L.readSlot hgood.inv hmem)
  exact ⟨hgood', hsame, L.trans hle hle', hq⟩

variable (hreserve : ∀ f, S.Forward f → R.Reserves)

include hreserve

/-- The output of a known block is usable; for that of another block a slot is reserved, if the scope allows it. -/
theorem visits_sourceOutput {b : BlockIx} {port : String}
    (hscope : S.Known b ∨ ∀ slot, a.CanForward ⟨slot, b, port⟩ → S.Forward ⟨slot, b, port⟩) (hv : R.Good a S v w.builder) :
    R.Visits a S (Visit.sourceOutput a b port) v w fun o b' => ∀ x ∈ o, R.Raw b' x := by
  refine Visits.get_bind ?_
  split
  · rename_i o ho
    refine Visits.pure L hv fun x hx => ?_
    obtain ⟨d, hd, hx⟩ := Option.bind_eq_some_iff.1 hx
    exact (hv.outcomes _ (mem_of_lookup ho)).raw hd x (Dict.mem_values_of_get? hx)
  · rename_i hnone
    split
    · rename_i f hf
      have hmem : f.slot ∈ S.base ++ v.forwards.map (·.slot) :=
        List.mem_append_right _ (List.mem_map_of_mem (List.mem_of_find?_eq_some hf))
      exact Visits.build L hv (L.readSlot hv.inv hmem)
    · rename_i hfind
      split
      · exact Visits.pure_none L hv
      · rename_i t ht
        split
        · rename_i h
          have hnew := (hscope.resolve_left fun hknown => by simpa [hnone] using hv.known b hknown) ⟨w.builder.slots.size⟩
            ⟨h.1, t, ht, h.2⟩
          exact visits_forward L (hreserve _ hnew) ht hfind hnew hv
        · exact Visits.pure_none L hv

variable {slots : BusSlots}

/-- The value of a writer that the scope admits is usable. -/
theorem visits_source {x : Writer} (hx : x.Grounded a.patch) (hscope : S.Admits a slots x) (t : ValueType)
    (hv : R.Good a S v w.builder) : R.Visits a S (Visit.source a slots t x) v w fun o b' => ∀ y ∈ o, R.Raw b' y := by
  cases x with
  | wire edge edgeId b port => exact visits_sourceOutput L hreserve hscope hv
  | bus edge edgeId b => exact Visits.build L hv (builds_readBus L (fun s hs => List.mem_append_left _ (hscope s hs)) hv.inv)
  | fallback id c =>
    obtain ⟨d, hd, rfl⟩ := hx
    refine Visits.pure L hv fun y hy => ?_
    obtain rfl := Option.some.inj hy
    exact L.fallback hv.inv hd

/-- The term of a writer that the scope admits has the type of the input. -/
theorem visits_term {x : Writer} (hx : x.Grounded a.patch) (hscope : S.Admits a slots x) (t : ValueType)
    (hv : R.Good a S v w.builder) : R.Visits a S (Visit.term a slots t x) v w fun o b' => ∀ y ∈ o, R.Typed t b' y := by
  refine Visits.bind L (visits_source L hreserve hx hscope t hv) fun o v w hv _ ho => ?_
  cases o with
  | none => exact Visits.pure_none L hv
  | some y => exact Visits.lift L hv (emits_finishTerm L _ t hv.inv (ho y rfl))

/-- The terms of several writers have the type of the input. -/
theorem visits_terms {xs : List Writer} (hxs : ∀ x ∈ xs, x.Grounded a.patch ∧ S.Admits a slots x) (t : ValueType)
    (hv : R.Good a S v w.builder) : R.Visits a S (Visit.terms a slots t xs) v w fun ys b' => ∀ y ∈ ys, R.Typed t b' y := by
  induction xs generalizing v w with
  | nil => exact Visits.pure L hv fun y hy => absurd hy List.not_mem_nil
  | cons x rest ih =>
    obtain ⟨⟨hx, hscope⟩, hrest⟩ := List.forall_mem_cons.1 hxs
    refine Visits.bind L (visits_term L hreserve hx hscope t hv) fun o v w hv _ ho => ?_
    refine Visits.bind L (ih hrest hv) fun ys v' w' hv' hle hys => Visits.pure L hv' ?_
    refine List.forall_mem_append.2 ⟨fun y hy => ?_, hys⟩
    exact L.typed_mono hle (ho y (Option.mem_toList.1 hy))

variable {ix : BlockIx} (hscope : ∀ port, ∀ x ∈ a.patch.writers ix port, S.Admits a slots x)

include hscope

/-- An input that is bound has a value of its type. -/
theorem visits_resolveInput (input : InputDecl) (hv : R.Good a S v w.builder) :
    R.Visits a S (Visit.resolveInput a slots ix input) v w fun res b' =>
      ∀ x, res = .bound x → ∃ t, a.types.inputType? ix input.id = some t ∧ R.Typed t b' x := by
  unfold Visit.resolveInput
  dsimp only
  cases ht : a.types.inputType? ix input.id with
  | none => exact Visits.pure L hv fun x hx => Visit.Resolution.noConfusion hx
  | some t =>
    dsimp only
    cases hpolicy : policyProblem? t (input.combine.getD {}) (a.patch.writers ix input.id) (.port (a.patch.blockId ix) input.id) with
    | some d => exact Visits.bind L (Visits.report L d hv) fun _ _ _ hv _ _ => Visits.pure L hv fun x hx => nomatch hx
    | none =>
      dsimp only
      split
      · split
        · exact Visits.bind L (Visits.report L _ hv) fun _ _ _ hv _ _ => Visits.pure L hv fun x hx => nomatch hx
        · exact Visits.pure L hv fun x hx => nomatch hx
      · obtain ⟨hallows, -⟩ := ValueType.complaint?_eq_none.1 (policyProblem?_eq_none_iff.1 hpolicy)
        have hxs : ∀ x ∈ a.patch.writers ix input.id, x.Grounded a.patch ∧ S.Admits a slots x :=
          fun x hx => ⟨Normalized.grounded_of_mem_writers hx, hscope input.id x hx⟩
        refine Visits.bind L (visits_terms L hreserve hxs t hv) fun ys v w hv _ hys => ?_
        refine Visits.bind L (Visits.build L hv (typed_reduce L.toElementary hv.inv (.inr hallows) hys)) fun o v w hv _ ho => ?_
        cases o with
        | none => exact Visits.pure L hv fun x hx => nomatch hx
        | some y =>
          refine Visits.pure L hv fun x hx => ?_
          cases hx
          exact ⟨t, rfl, ho y rfl⟩

/-- The inputs of a block are resolved to values of their types. -/
theorem visits_resolveInputs (inputs : List InputDecl) {done : Dict ValueRef} (hdone : R.Inputs a ix done w.builder)
    (hv : R.Good a S v w.builder) :
    R.Visits a S (Visit.resolveInputs a slots ix inputs done) v w fun o b' => ∀ d ∈ o, R.Inputs a ix d b' := by
  induction inputs generalizing done v w with
  | nil =>
    refine Visits.pure L hv fun d hd => ?_
    obtain rfl := Option.some.inj hd
    exact hdone
  | cons input rest ih =>
    refine Visits.bind L (visits_resolveInput L hreserve hscope input hv) fun res v w hv hle hres => ?_
    have hdone := Inputs.mono L hle hdone
    cases res with
    | unbound => exact ih hdone hv
    | rejected => exact Visits.bind L (ih hdone hv) fun _ _ _ hv _ _ => Visits.pure_none L hv
    | bound x =>
      obtain ⟨t, ht, hx⟩ := hres x rfl
      exact ih (hdone.insert ht hx) hv

omit hreserve hscope

/-- An output that gets a slot keeps to its declared type: before, it was a constant. -/
theorem builds_registerOutputs {rs : List SlotId} {declared : List (String × Option ValueType)}
    (ports : List (String × Option ValueType)) {outputs : Dict ValueRef} {b : Builder} (hb : R.Inv rs b)
    (hout : R.Outputs declared outputs b) :
    R.Builds rs (Visit.registerOutputs ports outputs) b fun d b' => R.Outputs declared d b' := by
  have E := L.toElementary
  induction ports generalizing outputs b with
  | nil => exact Builds.pure E hb hout
  | cons output rest ih =>
    obtain ⟨port, _ | t⟩ := output
    · exact ih hb hout
    · unfold Visit.registerOutputs
      split
      · exact ih hb hout
      · rename_i x hx
        split
        · rename_i hslot
          have hcoerce : R.Builds rs (Build.coerce x t) b fun o b' => (∀ y ∈ o, R.Raw b' y) ∧ ∀ y ∈ o, x.form = .const :=
            (builds_coerce E hb (hout.1.get hx) t).and (Build.returns_coerce_const (Option.isNone_iff_eq_none.1 hslot.2) hslot.1 b)
          refine hcoerce.bind E fun o b' hb' hle ho => ?_
          have hout' := hout.mono E hle
          cases o with
          | none => exact ih hb' hout'
          | some y =>
            refine ih hb' (hout'.insert (ho.1 y rfl) fun hstrict u hu => ?_)
            have hconst := ho.2 y rfl
            rcases hout.2 hstrict _ (Dict.mem_entries_of_get? hx) u hu with hu | hfits | ⟨h, rfl⟩
            · exact .inl hu
            · exact .inl ((ValueType.fits_iff.1 hfits).trans hconst)
            · cases hconst
        · exact ih hb hout

/-- What is made of the result of a lowering is a lawful outcome. -/
theorem visits_conclude {inputs : Dict ValueRef} {result : Except LowerError (Dict ValueRef)} (b : Block) {ports : PortTypes}
    (hports : a.types.ports? ix = some ports) (hin : R.Inputs a ix inputs w.builder)
    (hres : ∀ outputs, result = .ok outputs → R.Outputs ports.outputs outputs w.builder) (hv : R.Good a S v w.builder) :
    R.Visits a S (Visit.conclude ports.outputs b inputs result) v w fun o b' => R.Outcome a ix o b' := by
  cases result with
  | ok outputs =>
    refine Visits.bind L (Visits.build L hv (builds_registerOutputs L ports.outputs hv.inv (hres outputs rfl)))
      fun d v w hv hle hd => Visits.pure L hv ⟨Inputs.mono L hle hin, fun d' hd' => ?_⟩
    obtain rfl := Option.some.inj hd'
    exact ⟨ports, hports, hd⟩
  | error e =>
    exact Visits.bind L (Visits.report L _ hv) fun _ _ _ hv hle _ => Visits.pure L hv (.of_inputs (Inputs.mono L hle hin) rfl)

end Routes

section Blocks

variable (L : R.Lawful a) {slots : BusSlots} {ix : BlockIx}

include L

/-- To run the lowering of a block has a lawful outcome. -/
theorem visits_runLowering {l : Lowering} (hl : a.lowering? ix = some l) (decl : BlockDecl) {site : Site} (hsite : a.IsSite ix site)
    (b : Block) {inputs : Dict ValueRef} (hin : R.Inputs a ix inputs w.builder) (hv : R.Good a S v w.builder) :
    R.Visits a S (Visit.runLowering decl l site b inputs) v w fun o b' => R.Outcome a ix o b' := by
  have T := L.toRouted
  obtain ⟨ports, hports, houtputs⟩ := hsite.outputs
  refine Visits.bind T (Visits.build (Q := fun _ _ => True) T hv ⟨hv.inv, L.refl _, trivial⟩) fun before v w hv hle₁ _ => ?_
  have hin := Inputs.mono T hle₁ hin
  refine Visits.bind T (Visits.build T hv (L.lowering hl hsite hv.inv hin.rawAll)) fun result v w hv hle₂ hres => ?_
  have hin := Inputs.mono T hle₂ hin
  refine Visits.bind T (Visits.build (Q := fun _ _ => True) T hv ⟨hv.inv, L.refl _, trivial⟩) fun after v w hv hle₃ _ => ?_
  have hin := Inputs.mono T hle₃ hin
  rw [houtputs] at hres ⊢
  have hres := fun outputs h => (hres outputs h).mono L.toElementary hle₃
  dsimp only
  split
  · refine Visits.bind T (Visits.report T _ hv) fun _ v w hv hle _ => ?_
    exact visits_conclude T b hports (Inputs.mono T hle hin) (fun outputs h => (hres outputs h).mono L.toElementary hle) hv
  · exact visits_conclude T b hports hin hres hv

variable (hreserve : ∀ f, S.Forward f → R.Reserves)

include hreserve

/-- To lower a block whose writers are in scope has a lawful outcome. -/
theorem visits_lowerBlock (hscope : ∀ port, ∀ x ∈ a.patch.writers ix port, S.Admits a slots x) (hv : R.Good a S v w.builder) :
    R.Visits a S (Visit.lowerBlock a slots ix) v w fun o b' => R.Outcome a ix o b' := by
  have T := L.toRouted
  unfold Visit.lowerBlock
  split
  · rename_i b entry l ports _ _ hl hports
    refine Visits.bind T (visits_resolveInputs T hreserve hscope entry.decl.inputs (Inputs.empty ix _) hv) fun o v w hv _ ho => ?_
    cases o with
    | none => exact Visits.pure T hv (.of_inputs (Inputs.empty ix _) rfl)
    | some inputs => exact visits_runLowering L hl _ ⟨⟨ports, hports, rfl⟩, rfl⟩ b (ho inputs rfl) hv
  · exact Visits.pure T hv (.of_inputs (Inputs.empty ix _) rfl)

/-- All blocks among nodes, if what they are made of is in scope from the beginning. -/
theorem good_lowerNodes (hscope : ∀ x, S.Admits a slots x) (nodes : List Nat) (hv : R.Good a S v w.builder) :
    let s := ((Visit.lowerNodes a slots nodes).run v).run w
    R.Good a S s.1.2 s.2.builder ∧ R.Le w.builder s.2.builder := by
  induction nodes generalizing v w with
  | nil => exact ⟨hv, L.refl w.builder⟩
  | cons u rest ih =>
    unfold Visit.lowerNodes
    split
    · exact ih hv
    · rename_i b _
      have hblock : R.Visits a S (Visit.lowerBlock a slots b) v w fun o b' => R.Outcome a b o b' :=
        visits_lowerBlock L hreserve (fun _ x _ => hscope x) hv
      obtain ⟨hgood, hle⟩ := ih (hblock.good.add hblock.result)
      exact ⟨hgood, L.trans hblock.le hle⟩

end Blocks

end Regime

/-! ## The free regime -/

/-- The regime that asks nothing of the builder and of names. -/
def Regime.free : Regime where
  Inv _ _ := True
  Le _ _ := True
  Usable _ _ := True
  Bound _ _ := True

namespace Regime

/-- Everything keeps to the free regime. -/
theorem builds_free {α : Type} {rs : List SlotId} {m : Build α} {b : Builder} {Q : α → Builder → Prop}
    (h : Q (m.run b).1 (m.run b).2) : free.Builds rs m b Q :=
  ⟨trivial, trivial, h⟩

theorem raw_free (b : Builder) (v : ValueRef) : free.Raw b v := ⟨fun _ _ => trivial, False.elim⟩

/-- The elementary steps keep to the free regime. -/
theorem elementary_free : free.Elementary where
  refl _ := trivial
  trans _ _ := trivial
  mono _ _ := trivial
  steady := id
  slotType := False.elim
  intern _ _ := builds_free trivial
  signal _ _ _ _ := builds_free trivial
  field _ _ _ := builds_free trivial
  event _ _ _ := builds_free trivial
  slotFor _ _ _ _ := builds_free trivial
  handle _ _ _ := builds_free trivial
  renderSink _ _ _ := builds_free trivial
  camera _ _ _ := builds_free trivial
  assert _ _ _ := builds_free trivial

/-- Every step keeps to the regime, also a lowering or a transform that is not known by name. -/
theorem lawful_free (a : Analysis) : free.Lawful a where
  toElementary := elementary_free
  fallback _ _ := raw_free _ _
  readSlot _ _ := builds_free fun _ _ => raw_free _ _
  chain _ _ _ := builds_free fun _ _ => raw_free _ _
  lowering _ _ _ _ := builds_free fun _ _ => ⟨fun _ _ => raw_free _ _, False.elim⟩

end Regime

end PatchGraph
