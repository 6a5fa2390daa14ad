import PatchGraph.Proofs.Compile.SlotTypes
import PatchGraph.Proofs.Program.Routes

/-!
# Values that reach inputs

A writer of an input delivers a value if it starts from an output or a bus that lives in a slot, or if it is a default and the input is no
event (`Writer.delivers`). In a clean compilation nothing that is delivered is dropped: each such writer gives one term, no other writer
gives any, and the input gets a value made of all its terms.
-/

namespace PatchGraph

/-- Whether a writer of an input of a type delivers a value to it. -/
def Writer.delivers (types : TypeTable) (t : ValueType) : Writer → Bool
  | .wire _ _ b port => (types.outputType? b port).any ValueType.isSlotted
  | .bus _ _ b => (types.busType? b).any ValueType.isSlotted
  | .fallback _ _ => t.representation = .signal || t.representation = .field

/-! ## Nodes that combine values -/

/-- The number of terms of a signal that combines others. -/
def SignalExpr.terms? : SignalExpr → Option Nat
  | .combine _ terms => some terms.length
  | _ => none

/-- The number of terms of a field that combines others. -/
def FieldExpr.terms? : FieldExpr → Option Nat
  | .combine _ terms => some terms.length
  | _ => none

/-- The number of terms of an event that combines others. -/
def EventExpr.terms? : EventExpr → Option Nat
  | .merge terms | .override terms => some terms.length
  | _ => none

/-- The number of terms of a value that is a node combining others. -/
def Program.terms? (p : Program) : ValueRef → Option Nat
  | .signal e _ => p.signals[e.index]?.bind SignalExpr.terms?
  | .field e _ => p.fields[e.index]?.bind FieldExpr.terms?
  | .event e _ => p.events[e.index]?.bind EventExpr.terms?
  | .const _ _ | .special _ => none

/-- The number of terms of a value stays the same when more is built. -/
theorem Builder.Extends.terms? {b b' : Builder} (h : b.Extends b') {v : ValueRef} {k : Nat} (hv : b.finish.terms? v = some k) :
    b'.finish.terms? v = some k := by
  cases v with
  | const | special => cases hv
  | signal e s =>
    obtain ⟨x, hx, hk⟩ := Option.bind_eq_some_iff.1 hv
    exact Option.bind_eq_some_iff.2 ⟨x, getElem?_of_prefix h.signals hx, hk⟩
  | field e s =>
    obtain ⟨x, hx, hk⟩ := Option.bind_eq_some_iff.1 hv
    exact Option.bind_eq_some_iff.2 ⟨x, getElem?_of_prefix h.fields hx, hk⟩
  | event e s =>
    obtain ⟨x, hx, hk⟩ := Option.bind_eq_some_iff.1 hv
    exact Option.bind_eq_some_iff.2 ⟨x, getElem?_of_prefix h.events hx, hk⟩

/-- What is made of a number of values: of none nothing, of one a value, of several a node that combines them all. -/
structure Supplied (k : Nat) (o : Option ValueRef) (b : Builder) : Prop where
  isSome : o.isSome = true ↔ 1 ≤ k
  terms : 2 ≤ k → o.bind b.finish.terms? = some k

/-- Without a term there is no value. -/
theorem Supplied.none (b : Builder) : Supplied 0 .none b := ⟨by simp, nofun⟩

/-- What is supplied stays so when more is built. -/
theorem Supplied.mono {k : Nat} {o : Option ValueRef} {b b' : Builder} (h : Supplied k o b) (hle : b.Extends b') : Supplied k o b' := by
  refine ⟨h.isSome, fun hk => ?_⟩
  obtain ⟨v, hv, hterms⟩ := Option.bind_eq_some_iff.1 (h.terms hk)
  exact Option.bind_eq_some_iff.2 ⟨v, hv, hle.terms? hterms⟩

namespace Build

/-- If all values can be viewed, there is one view for each. -/
theorem returns_viewAll_length {α : Type} {view : ValueRef → Build (Option α)} (vs : List ValueRef) :
    (viewAll view vs).Returns fun o => ∀ as ∈ o, as.length = vs.length := by
  have hnone : ∀ n : Nat, Returns (pure (.none : Option (List α))) fun o => ∀ as ∈ o, as.length = n :=
    fun n => .pure fun as has => absurd has (Option.not_mem_none as)
  induction vs with
  | nil => exact .pure fun as has => by cases has; rfl
  | cons v rest ih =>
    refine (Returns.trivial _).bind fun o _ => ?_
    cases o with
    | none => exact hnone _
    | some a =>
      refine ih.bind fun o ho => ?_
      cases o with
      | none => exact hnone _
      | some as =>
        refine .pure fun bs hbs => ?_
        obtain rfl := Option.mem_some.1 hbs
        exact congrArg (· + 1) (ho as rfl)

/-- Values that each have a view have as many views. -/
theorem exists_viewAll {α : Type} {view : ValueRef → Build (Option α)} {vs : List ValueRef}
    (hview : ∀ v ∈ vs, (view v).Returns fun o => o.isSome = true) (b : Builder) :
    ∃ as b', (viewAll view vs).run b = (some as, b') ∧ as.length = vs.length := by
  obtain ⟨as, has⟩ := Option.isSome_iff_exists.1 (returns_viewAll hview b)
  exact ⟨as, _, Prod.ext has rfl, returns_viewAll_length vs b as has⟩

variable {t : ValueType} (ht : t.isSlotted = true) {terms : List ValueRef} (hterms : ∀ v ∈ terms, t.Fits v)

include ht hterms

/-- One node combines all values of a type that lives in slots. -/
theorem terms_combine (mode : CombineMode) (b : Builder) :
    let r := (combine t mode terms).run b
    r.1.bind r.2.finish.terms? = some terms.length := by
  unfold ValueType.isSlotted at ht
  unfold ValueType.Fits at hterms
  unfold combine
  cases hr : t.representation <;> rw [hr] at ht hterms
  case signal =>
    obtain ⟨ids, b', hviews, hlength⟩ := exists_viewAll (fun v hv => returns_asSignal (hterms v hv)) b
    dsimp only
    rw [StateT.run_bind, hviews]
    show ((b'.signals.push (.combine mode ids)).toList[b'.signals.size]?).bind SignalExpr.terms? = _
    simp [SignalExpr.terms?, hlength]
  case field =>
    obtain ⟨ids, b', hviews, hlength⟩ := exists_viewAll (fun v hv => returns_asField (hterms v hv)) b
    dsimp only
    rw [StateT.run_bind, hviews]
    show ((b'.fields.push (.combine mode ids)).toList[b'.fields.size]?).bind FieldExpr.terms? = _
    simp [FieldExpr.terms?, hlength]
  case event =>
    obtain ⟨ids, b', hviews, hlength⟩ := exists_viewAll (fun v hv => returns_asEvent (hterms v hv)) b
    dsimp only
    rw [StateT.run_bind, hviews]
    show ((b'.events.push (if mode = .sum then .merge ids else .override ids)).toList[b'.events.size]?).bind EventExpr.terms? = _
    by_cases hsum : mode = .sum <;> simp [EventExpr.terms?, hsum, hlength]
  all_goals cases ht

/-- Values of a type that lives in slots are reduced to a value that is made of them all. -/
theorem supplied_reduce (p : CombinePolicy) (b : Builder) :
    Supplied terms.length ((reduce t p terms).run b).1 ((reduce t p terms).run b).2 := by
  refine ⟨⟨fun hsome => ?_, fun hlength => ?_⟩, fun hlength => ?_⟩
  · cases terms with
    | nil => cases hsome
    | cons v rest => exact Nat.succ_pos _
  · refine returns_reduce_isSome ht p (fun hnil => ?_) hterms b
    rw [hnil] at hlength
    exact absurd hlength (Nat.not_succ_le_zero 0)
  · have hplan : p.plan terms.length = .node terms.length := by
      rw [CombinePolicy.plan, if_neg (by omega), if_neg (by omega)]
    rw [reduce, hplan]
    exact terms_combine ht hterms p.mode b

end Build

/-! ## Sound connections -/

/-- The type of what an edge starts from that is a writer. -/
def TypeTable.writerType? (types : TypeTable) : Writer → Option ValueType
  | .wire _ _ b port => types.outputType? b port
  | .bus _ _ b => types.busType? b
  | .fallback _ _ => none

namespace Analysis

/-- A writer that is an edge starts from something of a type which, after the adapters on the edge, has a conversion to a type. -/
def Connects (a : Analysis) (t : ValueType) (x : Writer) : Prop :=
  x.edge?.isSome = true → ∃ e u, a.edge? x = some e ∧ a.types.writerType? x = some u
    ∧ ((Typing.adaptedType a.registry u e.adapters).conversion? t).isSome = true

/-- A patch all of whose connections are sound, with block types that have what their declarations promise. -/
structure Faithful (a : Analysis) : Prop where
  candid : a.registry.Candid
  truthful : a.Truthful
  ports : ∀ ix, a.types.ports? ix = (a.patch.decl? a.registry ix).map Typing.portTypes
  lowered : ∀ ix port t, a.types.outputType? ix port = some t → (a.lowering? ix).isSome = true
  noConst : ∀ ix port t, a.types.outputType? ix port = some t → t.representation ≠ .const
  inputs : ∀ ix d, a.patch.decl? a.registry ix = some d → (d.inputs.map (·.id)).Nodup
  connects : ∀ ix port t, a.types.inputType? ix port = some t → ∀ x ∈ a.patch.writers ix port, a.Connects t x
  publishes : ∀ ix bus t, a.patch.bus? ix = some bus → a.types.busType? ix = some t → ∀ x ∈ a.patch.publishers bus.id, a.Connects t x

/-- The outputs of lowered blocks that live in slots have one. -/
def Registered (a : Analysis) (os : List (BlockIx × BlockOutcome)) : Prop :=
  ∀ ix o port t, os.lookup ix = some o → a.types.outputType? ix port = some t → t.isSlotted = true →
    ∃ d v s, o.outputs? = some d ∧ d.get? port = some v ∧ v.slot? = some s

/-- What holds while the blocks of a patch are lowered from which nothing is lost. -/
structure Ready (a : Analysis) (slots : BusSlots) (v : Visited) (b : Builder) : Prop where
  good : Regime.sorted.Good a (.whole a slots) v b
  buses : a.BusesTyped slots b
  registered : a.Registered v.outcomes

/-- A step of lowering blocks satisfies a condition in every clean run. -/
def Brings {α : Type} (a : Analysis) (slots : BusSlots) (m : Visit α) (v : Visited) (w : Workbench) (Q : α → Builder → Prop) : Prop :=
  m.Clean v w → a.Ready slots v w.builder → Regime.sorted.Visits a (.whole a slots) m v w Q

variable {α β : Type} {a : Analysis} {slots : BusSlots} {v : Visited} {w : Workbench}

/-- A visit that keeps the types sorted leaves the blocks ready. -/
theorem Ready.visits {m : Visit α} {Q : α → Builder → Prop} (h : a.Ready slots v w.builder)
    (hm : Regime.sorted.Visits a (.whole a slots) m v w Q) :
    a.Ready slots ((m.run v).run w).1.2 ((m.run v).run w).2.builder := by
  refine ⟨hm.good, fun ix s t hs ht => hm.le.slotType? (h.buses ix s t hs ht), ?_⟩
  rw [hm.outcomes]
  exact h.registered

/-- Two visits bring what the second brings, if the first is clean. -/
theorem Brings.bind {m : Visit α} {f : α → Visit β} {P : α → Builder → Prop} {Q : β → Builder → Prop} {D : Diagnostic → Prop}
    (h : a.Brings slots m v w P) (hfinding : ∀ x, (f x).Says D)
    (hf : ∀ x v' w', w.builder.Extends w'.builder → P x w'.builder → a.Brings slots (f x) v' w' Q) :
    a.Brings slots (m >>= f) v w Q := by
  intro hclean hready
  obtain ⟨hm, hrest⟩ := hclean.bind hfinding
  have hfirst := h hm hready
  obtain ⟨hgood, houtcomes, hle, hq⟩ := hf _ _ _ hfirst.le hfirst.result hrest (hready.visits hfirst)
  exact ⟨hgood, houtcomes.trans hfirst.outcomes, hfirst.le.trans hle, hq⟩

end Analysis

/-! ## From a source to an input -/

/-- What is known of the value that comes from an output or a bus of a type: there is one if the type lives in slots, and no expression
otherwise. -/
structure Sourced (t : ValueType) (o : Option ValueRef) (b : Builder) : Prop where
  slotted : t.isSlotted = true → ∃ v, o = some v ∧ Regime.sorted.Typed t b v
  other : t.isSlotted = false → ∀ v ∈ o, ∃ h, v = .special h

/-- A value of a type that lives in a slot. -/
theorem Sourced.of_slotted {t : ValueType} {v : ValueRef} {o : Option ValueRef} {b : Builder} (ht : t.isSlotted = true) (ho : o = some v)
    (hv : Regime.sorted.Typed t b v) : Sourced t o b :=
  ⟨fun _ => ⟨v, ho, hv⟩, fun h => nomatch ht.symm.trans h⟩

/-- Of a type that does not live in a slot no value is asked for. -/
theorem Sourced.none {t : ValueType} {b : Builder} (ht : t.isSlotted = false) : Sourced t .none b :=
  ⟨fun h => (nomatch ht.symm.trans h), fun _ v hv => absurd hv (Option.not_mem_none v)⟩

/-- Where there is no value, the type does not live in slots. -/
theorem Sourced.isSlotted_of_none {t : ValueType} {b : Builder} (h : Sourced t .none b) : t.isSlotted = false := by
  refine Bool.eq_false_iff.2 fun ht => ?_
  obtain ⟨v, hv, -⟩ := h.slotted ht
  cases hv

/-- A sourced value is usable. -/
theorem Sourced.raw {t : ValueType} {v : ValueRef} {b : Builder} (h : Sourced t (some v) b) : Regime.sorted.Raw b v := by
  cases ht : t.isSlotted with
  | true =>
    obtain ⟨y, hy, htyped⟩ := h.slotted ht
    obtain rfl := Option.some.inj hy
    exact htyped.1
  | false =>
    obtain ⟨handle, rfl⟩ := h.other ht v rfl
    exact Regime.raw_special.2 trivial

/-- An output of a lowered block. -/
theorem Sourced.output {a : Analysis} {ix : BlockIx} {port : String} {t : ValueType} {o : BlockOutcome} {b : Builder}
    (ho : Regime.sorted.Outcome a ix o b) (hport : a.types.outputType? ix port = some t) (hconst : t.representation ≠ .const)
    (hregistered : t.isSlotted = true → ∃ d v s, o.outputs? = some d ∧ d.get? port = some v ∧ v.slot? = some s) :
    Sourced t (o.outputs?.bind fun outputs => outputs.get? port) b := by
  have htype : ∀ {ports}, a.types.ports? ix = some ports → portType? ports.outputs port = some t := fun hports => by
    rw [TypeTable.outputType?, hports] at hport
    exact hport
  refine ⟨fun ht => ?_, fun ht v hv => ?_⟩
  · obtain ⟨d, v, s, hd, hv, hs⟩ := hregistered ht
    obtain ⟨ports, hports, hraw, hfits⟩ := ho.outputs d hd
    refine ⟨v, Option.bind_eq_some_iff.2 ⟨d, hd, hv⟩, hraw.get hv, ?_⟩
    exact (hfits trivial).fits (htype hports) ht hv hs
  · obtain ⟨d, hd, hv⟩ := Option.bind_eq_some_iff.1 hv
    obtain ⟨ports, hports, -, hfits⟩ := ho.outputs d hd
    rcases hfits trivial _ (Dict.mem_entries_of_get? hv) t (htype hports) with h | h | h
    · exact absurd h hconst
    · rw [ValueType.fits_iff] at h
      rw [ValueType.isSlotted, h] at ht
      cases v with
      | const => exact absurd h hconst
      | signal | field | event => cases ht
      | special handle => exact ⟨handle, rfl⟩
    · exact h

/-- What is read from a slot. -/
theorem Sourced.builds_readSlot {rs : List SlotId} {b : Builder} {s : SlotId} {t : ValueType} (hb : Regime.sorted.Inv rs b)
    (hs : b.slotType? s = some t) (ht : t.isSlotted = true) : Regime.sorted.Builds rs (Build.readSlot s) b (Sourced t) := by
  obtain ⟨hinv, hle, hraw⟩ := Regime.readSlot_sorted hb (s := s)
  obtain ⟨v, hv, hfits⟩ := Build.fits_readSlot hs ht
  exact ⟨hinv, hle, .of_slotted ht hv ⟨hraw v hv, hfits⟩⟩

section Chain

variable {r : Registry} (hr : r.Candid) {e : Edge} {u t : ValueType} (ht : t.isSlotted = true)
  (hconversion : ((Typing.adaptedType r u e.adapters).conversion? t).isSome = true) {rs : List SlotId} {v : ValueRef}

include hr ht hconversion

/-- What comes over an edge can be taken to a type that lives in slots exactly if it started from one that does. -/
theorem Registry.Candid.isSome_coerce {b : Builder} (hb : Regime.sorted.Inv rs b) (hv : Sourced u (some v) b) {x : ValueRef}
    (hx : ((r.applyChain e v).run.run b).1 = .ok x) (b' : Builder) : ((Build.coerce x t).run b').1.isSome = u.isSlotted := by
  cases hu : u.isSlotted with
  | true =>
    obtain ⟨y, hy, htyped⟩ := hv.slotted hu
    obtain rfl := Option.some.inj hy
    obtain ⟨-, -, hchain⟩ := hr.builds_applyChain Regime.stateful_sorted.toElementary trivial e hu hb htyped
    obtain ⟨hfits, hadapted⟩ := hchain x hx
    exact Build.returns_coerce_isSome hconversion hadapted ht hfits.2 b'
  | false =>
    obtain ⟨h, rfl⟩ := hv.other hu v rfl
    obtain rfl := hr.toStandard.returns_applyChain_special e h b x hx
    exact congrArg Option.isSome (Build.returns_coerce_special ht b')

omit hr ht hconversion in
/-- The steps of an edge are taken first, then the value is taken to its type. -/
theorem Emit.run_finishTerm (r : Registry) (e : Edge) (t : ValueType) (v : ValueRef) (w : Workbench) :
    let q := (r.applyChain e v).run.run w.builder
    (finishTerm r (some e) t v).run w = (match q.1 with
      | .ok x => Emit.build (Build.coerce x t)
      | .error err => do
        Emit.report (err.diagnostic e)
        return none : Emit (Option ValueRef)).run { w with builder := q.2 } :=
  rfl

/-- In a clean run an edge gives a value exactly if it starts from something that lives in a slot. -/
theorem Emit.isSome_finishTerm {w : Workbench} (hw : Regime.sorted.Inv rs w.builder) (hv : Sourced u (some v) w.builder)
    (hclean : (finishTerm r (some e) t v).Clean w) : ((finishTerm r (some e) t v).run w).1.isSome = u.isSlotted := by
  rw [Clean, run_finishTerm] at hclean
  rw [run_finishTerm]
  revert hclean
  split
  · rename_i x hx
    exact fun _ => hr.isSome_coerce ht hconversion hw hv hx _
  · rename_i err _
    intro hclean
    exact absurd (Clean.bind (m := Emit.report (err.diagnostic e)) hclean fun _ => .pure (P := fun _ => True) none).1
      (not_clean_report rfl)

end Chain

/-- Buses have a slot exactly if their type lives in one. -/
def Analysis.SlotsExact (a : Analysis) (slots : BusSlots) : Prop :=
  ∀ ix : BusIx, (slots[ix.index]?.join).isSome = (a.types.busType? ix).any ValueType.isSlotted

/-- A bus has a slot if and only if its type lives in slots. -/
theorem isSome_reserveBusSlots (ts : List (Option ValueType)) (b : Builder) (i : Nat) :
    (((reserveBusSlots ts).run b).1[i]?.join).isSome = (ts[i]?.join).any ValueType.isSlotted := by
  induction ts generalizing b i with
  | nil => rfl
  | cons t rest ih =>
    rw [run_reserveBusSlots_cons]
    cases i with
    | zero => cases t with
      | none => rfl
      | some t => cases ht : t.isSlotted <;> simp [Option.filter, ht]
    | succ i =>
      rw [List.getElem?_cons_succ]
      split <;> exact ih _ i

namespace Analysis

variable {a : Analysis} {slots : BusSlots} {v : Visited} {w : Workbench} (ha : a.Faithful) (hslots : a.SlotsExact slots)

include ha

/-- The steps of edges keep the types sorted. -/
theorem Faithful.routed : Regime.sorted.Routed a := (Regime.lawful_sorted ha.candid.toStandard ha.truthful).toRouted

/-- The value of an output. -/
theorem brings_sourceOutput {ix : BlockIx} {port : String} {t : ValueType} (ht : a.types.outputType? ix port = some t) :
    a.Brings slots (Visit.sourceOutput a ix port) v w (Sourced t) := by
  intro _ hready
  have T := ha.routed
  have hgood := hready.good
  refine Regime.Visits.get_bind ?_
  split
  · rename_i o ho
    refine Regime.Visits.pure T hgood (.output (hgood.outcomes _ (mem_of_lookup ho)) ht (ha.noConst ix port t ht) fun hslotted => ?_)
    exact hready.registered ix o port t ho ht hslotted
  · split
    · rename_i f hf
      have hmem := List.mem_of_find?_eq_some hf
      obtain ⟨rfl, rfl⟩ : f.block = ix ∧ f.port = port := by simpa using List.find?_some hf
      obtain ⟨u, hu, hslot⟩ := hgood.reserved trivial f hmem
      obtain ⟨-, u', hu', hslotted⟩ := hgood.forwards f hmem
      obtain rfl := Option.some.inj (ht.symm.trans hu)
      obtain rfl := Option.some.inj (ht.symm.trans hu')
      exact Regime.Visits.build T hgood (Sourced.builds_readSlot hgood.inv hslot hslotted)
    · rename_i hfind
      rw [ht]
      dsimp only
      cases hslotted : t.isSlotted with
      | false =>
        rw [if_neg (fun h => nomatch h.2)]
        exact Regime.Visits.pure T hgood (.none hslotted)
      | true =>
        rw [if_pos ⟨ha.lowered ix port t ht, rfl⟩]
        obtain ⟨hgood', houtcomes, hle, hraw⟩ := Regime.visits_forward T Regime.reserves_sorted ht hfind
          (show a.CanForward _ from ⟨ha.lowered ix port t ht, t, ht, hslotted⟩) hgood
        obtain ⟨y, hy, hfits⟩ := Build.fits_readSlot (Build.slotType?_reserve w.builder t) hslotted
        exact ⟨hgood', houtcomes, hle, .of_slotted hslotted hy ⟨hraw y hy, hfits⟩⟩

include hslots

/-- The value of a bus. -/
theorem brings_readBus {ix : BusIx} {t : ValueType} (ht : a.types.busType? ix = some t) :
    a.Brings slots (Visit.build (readBus slots ix)) v w (Sourced t) := by
  intro _ hready
  have hexact := hslots ix
  rw [ht, Option.any_some] at hexact
  refine Regime.Visits.build ha.routed hready.good ?_
  unfold readBus
  split
  · rename_i hnone
    rw [hnone] at hexact
    exact Regime.Builds.pure Regime.stateful_sorted.toElementary hready.good.inv (.none hexact.symm)
  · rename_i s hs
    rw [hs] at hexact
    exact Sourced.builds_readSlot hready.good.inv (hready.buses ix s t hs ht) hexact.symm

/-- A writer brings a value if and only if what it starts from lives in a slot. -/
theorem brings_source {x : Writer} {u : ValueType} (hu : a.types.writerType? x = some u) (t : ValueType) :
    a.Brings slots (Visit.source a slots t x) v w (Sourced u) := by
  cases x with
  | wire edge edgeId b port => exact brings_sourceOutput ha hu
  | bus edge edgeId b => exact brings_readBus ha hslots hu
  | fallback id c => cases hu

variable {t : ValueType} (ht : t.isSlotted = true)

include ht

omit hslots in
/-- An edge gives a value exactly if it starts from something that lives in a slot. -/
theorem brings_finishTerm {x : Writer} {e : Edge} {u : ValueType} (he : a.edge? x = some e)
    (hconversion : ((Typing.adaptedType a.registry u e.adapters).conversion? t).isSome = true) {y : ValueRef}
    (hy : Sourced u (some y) w.builder) :
    a.Brings slots (liftM (finishTerm a.registry (a.edge? x) t y)) v w fun o b' =>
      o.isSome = u.isSlotted ∧ ∀ y ∈ o, Regime.sorted.Typed t b' y := by
  intro hclean hready
  have hclean : (finishTerm a.registry (some e) t y).Clean w := he ▸ hclean
  rw [he]
  obtain ⟨hinv, hle, hq⟩ := Regime.emits_finishTerm ha.routed (some e) t hready.good.inv hy.raw
  refine Regime.Visits.lift ha.routed hready.good ⟨hinv, hle, ?_, hq⟩
  exact Emit.isSome_finishTerm ha.candid ht hconversion hready.good.inv hy hclean

/-- An edge that is a writer. -/
theorem brings_edge {x : Writer} (hx : a.Connects t x) (hedge : x.edge?.isSome = true) :
    a.Brings slots (Visit.term a slots t x) v w fun o b' =>
      o.isSome = x.delivers a.types t ∧ ∀ y ∈ o, Regime.sorted.Typed t b' y := by
  obtain ⟨e, u, he, hu, hconversion⟩ := hx hedge
  have hdelivers : x.delivers a.types t = u.isSlotted := by
    cases x with
    | wire edge edgeId b port => exact (congrArg (Option.any _) hu).trans rfl
    | bus edge edgeId b => exact (congrArg (Option.any _) hu).trans rfl
    | fallback id c => cases hu
  rw [hdelivers]
  refine (brings_source ha hslots hu t).bind (D := Finding a) (fun o => ?_) fun o v' w' _ ho => ?_
  · cases o with
    | none => exact .pure none
    | some y => exact .lift (says_finishTerm .step x t y)
  · cases o with
    | none =>
      refine fun _ hready => Regime.Visits.pure ha.routed hready.good ⟨?_, fun y hy => absurd hy (Option.not_mem_none y)⟩
      rw [ho.isSlotted_of_none]
      rfl
    | some y => exact brings_finishTerm ha ht he hconversion ho

/-- A writer gives a value exactly if it delivers one. -/
theorem brings_term {x : Writer} (hx : a.Connects t x) :
    a.Brings slots (Visit.term a slots t x) v w fun o b' =>
      o.isSome = x.delivers a.types t ∧ ∀ y ∈ o, Regime.sorted.Typed t b' y := by
  cases x with
  | wire edge edgeId b port => exact brings_edge ha hslots ht hx rfl
  | bus edge edgeId b => exact brings_edge ha hslots ht hx rfl
  | fallback id c =>
    intro _ hready
    have hterm : Visit.term a slots t (.fallback id c) = Visit.build (Build.coerce (fallbackValue c t) t) := rfl
    rw [hterm]
    refine Regime.Visits.build ha.routed hready.good ?_
    have hraw : Regime.sorted.Raw w.builder (fallbackValue c t) := Regime.raw_const.2 trivial
    obtain ⟨hinv, hle, hq⟩ := Regime.typed_coerce Regime.stateful_sorted.toElementary hready.good.inv hraw t
    exact ⟨hinv, hle, Build.returns_coerce_constant ht _, hq⟩

/-- There are as many terms as writers that deliver one. -/
theorem brings_terms {xs : List Writer} (hxs : ∀ x ∈ xs, a.Connects t x) :
    a.Brings slots (Visit.terms a slots t xs) v w fun ys b' =>
      ys.length = xs.countP (·.delivers a.types t) ∧ ∀ y ∈ ys, Regime.sorted.Typed t b' y := by
  induction xs generalizing v w with
  | nil => exact fun _ hready => Regime.Visits.pure ha.routed hready.good ⟨rfl, fun y hy => absurd hy List.not_mem_nil⟩
  | cons x rest ih =>
    obtain ⟨hx, hrest⟩ := List.forall_mem_cons.1 hxs
    refine (brings_term ha hslots ht hx).bind (D := Finding a) (fun _ => (Visit.says_terms .step slots t rest).bind fun _ => .pure _)
      fun o v w hle ho => ?_
    refine (ih hrest).bind (D := Finding a) (fun _ => .pure _) fun ys v w hle hys => ?_
    refine fun _ hready => Regime.Visits.pure ha.routed hready.good ⟨?_, ?_⟩
    · have hlength : o.toList.length = if x.delivers a.types t = true then 1 else 0 := by
        rw [← ho.1]
        cases o <;> rfl
      rw [List.length_append, hlength, hys.1, List.countP_cons, Nat.add_comm]
    · refine List.forall_mem_append.2 ⟨fun y hy => ?_, hys.2⟩
      exact Regime.stateful_sorted.typed_mono hle (ho.2 y (Option.mem_toList.1 hy))

end Analysis

/-- The value of an input that was resolved. -/
def Visit.Resolution.value? : Visit.Resolution → Option ValueRef
  | .unbound | .rejected => none
  | .bound v => some v

namespace Analysis

/-- An input is bound to what its writers deliver. -/
def Served (a : Analysis) (ix : BlockIx) (port : String) (o : Option ValueRef) (b : Builder) : Prop :=
  ∀ t, a.types.inputType? ix port = some t → t.isSlotted = true →
    Supplied ((a.patch.writers ix port).countP (·.delivers a.types t)) o b

variable {a : Analysis} {slots : BusSlots} {v : Visited} {w : Workbench} (ha : a.Faithful) (hslots : a.SlotsExact slots)

include ha hslots

/-- An input gets a value made of one term for each writer that delivers. -/
theorem brings_boundInput {t : ValueType} (ht : t.isSlotted = true) {ws : List Writer} (hws : ∀ x ∈ ws, a.Connects t x)
    (policy : CombinePolicy) :
    a.Brings slots (Visit.boundInput a slots t policy ws) v w fun res b' => Supplied (ws.countP (·.delivers a.types t)) res.value? b' := by
  refine (brings_terms ha hslots ht hws).bind (D := Finding a)
    (fun ys => (Visit.says_build _).bind fun o => by cases o <;> exact .pure _) fun ys v w _ hys => ?_
  intro _ hready
  have hreduce := Build.supplied_reduce ht (fun y hy => (hys.2 y hy).2) policy w.builder
  rw [hys.1] at hreduce
  obtain ⟨hinv, hle, -⟩ := Regime.typed_reduce Regime.stateful_sorted.toElementary hready.good.inv (p := policy) (.inl ht) hys.2
  refine Regime.Visits.bind ha.routed (Regime.Visits.build (Q := Supplied _) ha.routed hready.good ⟨hinv, hle, hreduce⟩)
    fun o v w hgood _ ho => ?_
  cases o with
  | none => exact Regime.Visits.pure ha.routed hgood ho
  | some y => exact Regime.Visits.pure ha.routed hgood ho

/-- A resolved input is served. -/
theorem brings_resolveInput (ix : BlockIx) (input : InputDecl) :
    a.Brings slots (Visit.resolveInput a slots ix input) v w fun res b' => a.Served ix input.id res.value? b' := by
  intro hclean hready
  have hvisits : Regime.sorted.Visits a (.whole a slots) (Visit.resolveInput a slots ix input) v w _ :=
    Regime.visits_resolveInput ha.routed (fun _ _ => Regime.reserves_sorted) (fun _ x _ => Scope.admits_whole a slots x) input hready.good
  refine ⟨hvisits.good, hvisits.outcomes, hvisits.le, fun t ht hslotted => ?_⟩
  rcases hclean.resolveInput with ⟨hnone, hrun⟩ | ⟨t', ht', hbound, hrun⟩
  · rw [hrun]
    have hwriters := hnone.resolve_left fun h => nomatch h.symm.trans ht
    rw [hwriters]
    exact .none w.builder
  · rw [hrun]
    obtain rfl := Option.some.inj (ht.symm.trans ht')
    exact (brings_boundInput ha hslots hslotted (ha.connects ix input.id t ht) _ hbound hready).result

omit ha hslots in
/-- An input stays served when more is built. -/
theorem Served.mono {ix : BlockIx} {port : String} {o : Option ValueRef} {b b' : Builder} (h : a.Served ix port o b)
    (hle : b.Extends b') : a.Served ix port o b' :=
  fun t ht hslotted => (h t ht hslotted).mono hle

/-- Each of several inputs of distinct names is bound to what its writers deliver, and no other is touched. -/
theorem brings_resolveInputs {ix : BlockIx} {inputs : List InputDecl} (hdeclared : ∀ input ∈ inputs, a.Declares ix input)
    (hnodup : (inputs.map (·.id)).Nodup) {done : Dict ValueRef} (hdone : ∀ input ∈ inputs, done.get? input.id = none) :
    a.Brings slots (Visit.resolveInputs a slots ix inputs done) v w fun o b' => ∀ d ∈ o,
      (∀ input ∈ inputs, a.Served ix input.id (d.get? input.id) b') ∧
        ∀ port, (∀ input ∈ inputs, port ≠ input.id) → d.get? port = done.get? port := by
  induction inputs generalizing done v w with
  | nil =>
    refine fun _ hready => Regime.Visits.pure ha.routed hready.good fun d hd => ?_
    obtain rfl := Option.mem_some.1 hd
    exact ⟨fun input hinput => absurd hinput List.not_mem_nil, fun port _ => rfl⟩
  | cons input rest ih =>
    obtain ⟨hinput, hrest⟩ := List.forall_mem_cons.1 hdeclared
    obtain ⟨hfirst, hothers⟩ := List.forall_mem_cons.1 hdone
    rw [List.map_cons, List.nodup_cons] at hnodup
    have hne : ∀ other ∈ rest, input.id ≠ other.id := fun other hother heq =>
      hnodup.1 (heq ▸ List.mem_map_of_mem hother)
    refine (brings_resolveInput ha hslots ix input).bind (D := Finding a) (fun res => ?_) fun res v w _ hres => ?_
    · cases res with
      | unbound => exact Visit.says_resolveInputs .step .inputPolicy .missingInput slots hrest done
      | bound y => exact Visit.says_resolveInputs .step .inputPolicy .missingInput slots hrest _
      | rejected => exact (Visit.says_resolveInputs .step .inputPolicy .missingInput slots hrest done).bind fun _ => .pure none
    -- what is bound now is left as it is by the rest
    have hstep : ∀ {done' : Dict ValueRef}, (∀ other ∈ rest, done'.get? other.id = none) → done'.get? input.id = res.value? →
        (∀ port, port ≠ input.id → done'.get? port = done.get? port) →
        a.Brings slots (Visit.resolveInputs a slots ix rest done') v w fun o b' => ∀ d ∈ o,
          (∀ other ∈ input :: rest, a.Served ix other.id (d.get? other.id) b') ∧
            ∀ port, (∀ other ∈ input :: rest, port ≠ other.id) → d.get? port = done.get? port := by
      intro done' hnone hbound hsame hclean hready
      obtain ⟨hgood, houtcomes, hle, hq⟩ := ih hrest hnodup.2 hnone hclean hready
      refine ⟨hgood, houtcomes, hle, fun d hd => ?_⟩
      obtain ⟨hserved, huntouched⟩ := hq d hd
      refine ⟨List.forall_mem_cons.2 ⟨?_, hserved⟩, fun port hport => ?_⟩
      · rw [huntouched input.id hne, hbound]
        exact hres.mono hle
      · obtain ⟨hport, hports⟩ := List.forall_mem_cons.1 hport
        rw [huntouched port hports, hsame port hport]
    cases res with
    | unbound => exact hstep hothers hfirst fun _ _ => rfl
    | bound y =>
      refine hstep (fun other hother => ?_) ?_ fun port hport => ?_
      · rw [Dict.get?_insert, if_neg (hne other hother).symm]
        exact hothers other hother
      · rw [Dict.get?_insert, if_pos rfl]
        rfl
      · rw [Dict.get?_insert, if_neg hport]
    | rejected =>
      refine (ih hrest hnodup.2 hothers).bind (D := Finding a) (fun _ => .pure none) fun _ _ _ _ _ => ?_
      exact fun _ hready => Regime.Visits.pure ha.routed hready.good fun d hd => absurd hd (Option.not_mem_none d)

end Analysis

/-! ## Blocks -/

namespace Analysis

variable {a : Analysis} {slots : BusSlots} {v : Visited} {w : Workbench} {ix : BlockIx}

/-- If all blocks are registered, so are those that were lowered first. -/
theorem Registered.of_append {os more : List (BlockIx × BlockOutcome)} (h : a.Registered (os ++ more)) : a.Registered os :=
  fun ix o port t ho => h ix o port t (by rw [List.lookup_append, ho, Option.some_or])

/-- A block without ports has no lowering. -/
theorem Faithful.lowering?_eq_none (ha : a.Faithful) (h : a.types.ports? ix = none) : a.lowering? ix = none := by
  have hports := ha.ports ix
  rw [h] at hports
  have hdecl := Option.map_eq_none_iff.1 hports.symm
  cases hentry : a.entry? ix with
  | none => rw [lowering?, hentry, Option.bind_none]
  | some entry => cases (Visit.decl?_of_entry hentry).symm.trans hdecl

/-- In a clean run a block with a lowering is lowered from the inputs that were resolved for it. -/
theorem Faithful.lowered_of_clean (ha : a.Faithful) (hclean : (Visit.lowerBlock a slots ix).Clean v w)
    (hgood : Regime.sorted.Good a (.whole a slots) v w.builder) :
    a.lowering? ix = none ∨ ∃ entry inputs outputs, a.entry? ix = some entry
      ∧ let q := ((Visit.resolveInputs a slots ix entry.decl.inputs {}).run v).run w
        let s := ((Visit.lowerBlock a slots ix).run v).run w
        (Visit.resolveInputs a slots ix entry.decl.inputs {}).Clean v w ∧ q.1.1 = some inputs
          ∧ s.1.1 = .lowered inputs outputs ∧ q.2.builder.Extends s.2.builder := by
  rcases hclean.lowerBlock with ⟨hskipped, -⟩ | ⟨b, entry, l, ports, inputs, hb, hentry, hl, hports, hresolve, hinputs, hlowering, hrun⟩
  · exact .inl (hskipped.elim id ha.lowering?_eq_none)
  · have hresolved := Regime.visits_resolveInputs ha.routed (fun _ _ => Regime.reserves_sorted)
      (fun _ x _ => Scope.admits_whole a slots x) entry.decl.inputs (Regime.Inputs.empty ix _) hgood
    have hsite : a.IsSite ix ⟨ix, b.id, b.params, ports.outputs, a.time.model⟩ := ⟨⟨ports, hports, rfl⟩, rfl⟩
    have hle := (Regime.visits_runLowering (Regime.lawful_sorted ha.candid.toStandard ha.truthful) hl entry.decl
      hsite b (hresolved.result inputs hinputs) hresolved.good).le
    obtain ⟨outputs, -, -, hconclude⟩ := hlowering.runLowering hb
    have hout : ∃ outputs, (((Visit.lowerBlock a slots ix).run v).run w).1.1 = .lowered inputs outputs := by
      rw [hrun, hconclude]
      exact ⟨_, rfl⟩
    obtain ⟨outputs, hout⟩ := hout
    refine .inr ⟨entry, inputs, outputs, hentry, hresolve, hinputs, hout, ?_⟩
    rw [hrun]
    exact hle

/-- Blocks that were lowered: each that has a lowering went through it, and if all their outputs have slots, each of their inputs is
bound to what its writers deliver. -/
structure ServedSoFar (a : Analysis) (slots : BusSlots) (v : Visited) (b : Builder) : Prop where
  good : Regime.sorted.Good a (.whole a slots) v b
  buses : a.BusesTyped slots b
  lowered : ∀ x ∈ v.outcomes, a.lowering? x.1 = none ∨ ∃ inputs outputs, x.2 = .lowered inputs outputs
  served : a.Registered v.outcomes → ∀ x ∈ v.outcomes, ∀ entry, a.entry? x.1 = some entry → entry.lowering.isSome = true →
    ∀ input ∈ entry.decl.inputs, a.Served x.1 input.id (x.2.inputs.get? input.id) b

/-- One more block. -/
theorem ServedSoFar.lowerBlock (ha : a.Faithful) (hslots : a.SlotsExact slots) (hclean : (Visit.lowerBlock a slots ix).Clean v w)
    (h : a.ServedSoFar slots v w.builder) :
    let s := ((Visit.lowerBlock a slots ix).run v).run w
    a.ServedSoFar slots { s.1.2 with outcomes := s.1.2.outcomes ++ [(ix, s.1.1)] } s.2.builder := by
  have hvisits : Regime.sorted.Visits a (.whole a slots) (Visit.lowerBlock a slots ix) v w _ :=
    Regime.visits_lowerBlock (Regime.lawful_sorted ha.candid.toStandard ha.truthful) (fun _ _ => Regime.reserves_sorted)
      (fun _ x _ => Scope.admits_whole a slots x) h.good
  have hlowered := ha.lowered_of_clean hclean h.good
  refine ⟨hvisits.good.add hvisits.result, fun bus s t hs ht => hvisits.le.slotType? (h.buses bus s t hs ht), ?_, ?_⟩
  · refine List.forall_mem_append.2 ⟨hvisits.outcomes ▸ h.lowered, List.forall_mem_singleton.2 ?_⟩
    exact hlowered.imp id fun ⟨_, inputs, outputs, _, _, _, hout, _⟩ => ⟨inputs, outputs, hout⟩
  · intro hregistered
    have hregistered : a.Registered v.outcomes := hvisits.outcomes ▸ hregistered.of_append
    refine List.forall_mem_append.2 ⟨?_, List.forall_mem_singleton.2 ?_⟩
    · rw [hvisits.outcomes]
      exact fun x hx entry hentry hl input hinput => (h.served hregistered x hx entry hentry hl input hinput).mono hvisits.le
    · intro entry hentry hl input hinput
      rcases hlowered with hnone | ⟨entry', inputs, outputs, hentry', hresolve, hinputs, hout, hle⟩
      · rw [lowering?, hentry, Option.bind_some] at hnone
        rw [hnone] at hl
        cases hl
      · obtain rfl := Option.some.inj (hentry.symm.trans hentry')
        rw [hout]
        have hbrings := brings_resolveInputs ha hslots (Visit.declares_of_entry hentry)
          (ha.inputs ix entry.decl (Visit.decl?_of_entry hentry)) (fun _ _ => rfl) hresolve ⟨h.good, h.buses, hregistered⟩
        exact ((hbrings.result inputs hinputs).1 input hinput).mono hle

end Analysis

end PatchGraph
