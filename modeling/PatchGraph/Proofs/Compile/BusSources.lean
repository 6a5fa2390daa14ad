import PatchGraph.Proofs.Compile.Appending
import PatchGraph.Proofs.Compile.Policies
import PatchGraph.Proofs.Patch.Defaults
import PatchGraph.Proofs.Patch.Indices

/-!
# The sources of buses

When the buses are lowered, the slot of each is given a source, whatever its publishers are made of and whatever was reported of it. The
publishers that gave a value (`BusValue.given`) decide which: without one it is the default of the bus, a single one passes as it is, and
several are the terms of one node (`Builder.Fills`). Later buses leave this alone.
-/

namespace PatchGraph

/-! ## What a source can be -/

namespace Builder

/-- A source is the default of a type: an event that never occurs, or a constant that holds a given value or else the zero of the
domain. -/
def IsDefault (b : Builder) (t : ValueType) (value : Option Value) : SlotSource → Prop
  | .unbound => False
  | .signal x => ∃ c v, b.signals[x.index]? = some (.const c) ∧ b.constant? c = some v ∧ value.or t.domain.zero? = some v
  | .field x => ∃ c v, b.fields[x.index]? = some (.const c) ∧ b.constant? c = some v ∧ value.or t.domain.zero? = some v
  | .event x => b.events[x.index]? = some .never

/-- A source is one node that combines the expressions of values, in order, by a mode. -/
def IsCombination (b : Builder) (mode : CombineMode) (values : List ValueRef) : SlotSource → Prop
  | .unbound => False
  | .signal x => ∃ terms, b.signals[x.index]? = some (.combine mode terms)
    ∧ values.map ValueRef.source? = terms.map fun y => some (.signal y)
  | .field x => ∃ terms, b.fields[x.index]? = some (.combine mode terms)
    ∧ values.map ValueRef.source? = terms.map fun y => some (.field y)
  | .event x => ∃ terms, b.events[x.index]? = some (if mode = .sum then .merge terms else .override terms)
    ∧ values.map ValueRef.source? = terms.map fun y => some (.event y)

/-- A source is what a bus of a type makes of the values that its publishers gave. -/
structure Fills (b : Builder) (bus : Bus) (t : ValueType) (values : List ValueRef) (source : SlotSource) : Prop where
  fits : source.fits t.representation = true
  ofNone : values = [] → b.IsDefault t bus.default source
  ofOne : ∀ v, values = [v] → v.source? = some source
  ofSeveral : 2 ≤ values.length → b.IsCombination bus.combine values source

variable {bound : List SlotId} {b b' : Builder} {t : ValueType} {source : SlotSource}

/-- What stands in a table stands at the same place in every longer table that starts with it. -/
theorem getElem?_of_toList_prefix {α : Type} {xs ys : Array α} (h : xs.toList <+: ys.toList) {i : Nat} {x : α}
    (hx : xs[i]? = some x) : ys[i]? = some x := by
  rw [← Array.getElem?_toList] at hx ⊢
  exact getElem?_of_prefix h hx

/-- A source that is the default of a bus stays so when other slots are bound. -/
theorem IsDefault.mono {value : Option Value} (h : b.IsDefault t value source) (hb : b.KeepsBut bound b') :
    b'.IsDefault t value source := by
  cases source with
  | unbound => exact h
  | signal x =>
    obtain ⟨c, v, hx, hc, hv⟩ := h
    exact ⟨c, v, getElem?_of_toList_prefix hb.signals hx, getElem?_of_toList_prefix hb.consts hc, hv⟩
  | field x =>
    obtain ⟨c, v, hx, hc, hv⟩ := h
    exact ⟨c, v, getElem?_of_toList_prefix hb.fields hx, getElem?_of_toList_prefix hb.consts hc, hv⟩
  | event x => exact getElem?_of_toList_prefix hb.events h

/-- A source that combines values stays so when other slots are bound. -/
theorem IsCombination.mono {mode : CombineMode} {values : List ValueRef} (h : b.IsCombination mode values source)
    (hb : b.KeepsBut bound b') : b'.IsCombination mode values source := by
  cases source with
  | unbound => exact h
  | signal x =>
    obtain ⟨terms, hx, hterms⟩ := h
    exact ⟨terms, getElem?_of_toList_prefix hb.signals hx, hterms⟩
  | field x =>
    obtain ⟨terms, hx, hterms⟩ := h
    exact ⟨terms, getElem?_of_toList_prefix hb.fields hx, hterms⟩
  | event x =>
    obtain ⟨terms, hx, hterms⟩ := h
    exact ⟨terms, getElem?_of_toList_prefix hb.events hx, hterms⟩

/-- What fills a bus goes on to fill it when other slots are bound. -/
theorem Fills.mono {bus : Bus} {values : List ValueRef} (h : b.Fills bus t values source) (hb : b.KeepsBut bound b') :
    b'.Fills bus t values source :=
  ⟨h.fits, fun hnil => (h.ofNone hnil).mono hb, h.ofOne, fun hlength => (h.ofSeveral hlength).mono hb⟩

end Builder

/-! ## What is built -/

/-- The default of a bus is what it should be. -/
theorem BusValue.isDefault_default (t : ValueType) (value : Option Value) (b : Builder) :
    let r := (default t value).run b
    ∀ v ∈ r.1, ∀ source, v.source? = some source → r.2.IsDefault t value source := by
  intro r v hv source hsource
  unfold r default at hv ⊢
  cases hr : t.representation with
  | event =>
    rw [hr] at hv
    obtain rfl := Option.some.inj hv
    obtain rfl := Option.some.inj hsource
    show (b.events.push .never)[b.events.size]? = _
    simp
  | signal =>
    rw [hr] at hv
    dsimp only at hv ⊢
    cases hvalue : value.or t.domain.zero? with
    | none =>
      rw [hvalue] at hv
      cases hv
    | some x =>
      rw [hvalue] at hv
      obtain rfl := Option.some.inj hv
      obtain rfl := Option.some.inj hsource
      refine ⟨(b.consts.intern x).1, x, ?_, Pool.get?_intern b.consts x, hvalue⟩
      show (b.signals.push (.const _))[b.signals.size]? = _
      simp
  | field =>
    rw [hr] at hv
    dsimp only at hv ⊢
    cases hvalue : value.or t.domain.zero? with
    | none =>
      rw [hvalue] at hv
      cases hv
    | some x =>
      rw [hvalue] at hv
      obtain rfl := Option.some.inj hv
      obtain rfl := Option.some.inj hsource
      refine ⟨(b.consts.intern x).1, x, ?_, Pool.get?_intern b.consts x, hvalue⟩
      show (b.fields.push (.const _))[b.fields.size]? = _
      simp
  | const | handle | none =>
    rw [hr] at hv
    cases hv

namespace Build

/-- Values that are expressions of a world already are what a view asks for. -/
theorem viewAll_eq {α : Type} {view : ValueRef → Build (Option α)} {form : Representation} {source : α → SlotSource}
    (hview : ∀ v : ValueRef, v.fits form = true → ∃ x, view v = pure (some x) ∧ v.source? = some (source x)) {vs : List ValueRef}
    (hvs : ∀ v ∈ vs, v.fits form = true) :
    ∃ xs, viewAll view vs = pure (some xs) ∧ vs.map ValueRef.source? = xs.map fun x => some (source x) := by
  induction vs with
  | nil => exact ⟨[], rfl, rfl⟩
  | cons v rest ih =>
    obtain ⟨hv, hrest⟩ := List.forall_mem_cons.1 hvs
    obtain ⟨x, hx, hsource⟩ := hview v hv
    obtain ⟨xs, hxs, hsources⟩ := ih hrest
    refine ⟨x :: xs, ?_, ?_⟩
    · rw [viewAll, hx, hxs]
      rfl
    · rw [List.map_cons, List.map_cons, hsource, hsources]

/-- What fits a signal is its own signal. -/
theorem asSignal_eq (v : ValueRef) (hv : v.fits .signal = true) : ∃ x, asSignal v = pure (some x) ∧ v.source? = some (.signal x) := by
  cases v with
  | signal e s => exact ⟨e, rfl, rfl⟩
  | _ => cases hv

/-- What fits a field is its own field. -/
theorem asField_eq (v : ValueRef) (hv : v.fits .field = true) : ∃ x, asField v = pure (some x) ∧ v.source? = some (.field x) := by
  cases v with
  | field e s => exact ⟨e, rfl, rfl⟩
  | _ => cases hv

/-- What fits an event is its own event. -/
theorem asEvent_eq (v : ValueRef) (hv : v.fits .event = true) : ∃ x, asEvent v = pure (some x) ∧ v.source? = some (.event x) := by
  cases v with
  | event e s => exact ⟨e, rfl, rfl⟩
  | _ => cases hv

/-- One node combines the values of a type that lives in slots. -/
theorem isCombination_combine {t : ValueType} (ht : t.isSlotted = true) {values : List ValueRef} (hvalues : ∀ v ∈ values, t.Fits v)
    (mode : CombineMode) (b : Builder) :
    let r := (combine t mode values).run b
    ∀ v ∈ r.1, ∀ source, v.source? = some source → r.2.IsCombination mode values source := by
  intro r v hv source hsource
  unfold ValueType.Fits at hvalues
  unfold r combine at hv ⊢
  cases hr : t.representation with
  | signal =>
    rw [hr] at hv hvalues
    obtain ⟨terms, hterms, hsources⟩ := viewAll_eq asSignal_eq hvalues
    dsimp only at hv ⊢
    rw [hterms] at hv ⊢
    obtain rfl := Option.some.inj hv
    obtain rfl := Option.some.inj hsource
    refine ⟨terms, ?_, hsources⟩
    show (b.signals.push (.combine mode terms))[b.signals.size]? = _
    simp
  | field =>
    rw [hr] at hv hvalues
    obtain ⟨terms, hterms, hsources⟩ := viewAll_eq asField_eq hvalues
    dsimp only at hv ⊢
    rw [hterms] at hv ⊢
    obtain rfl := Option.some.inj hv
    obtain rfl := Option.some.inj hsource
    refine ⟨terms, ?_, hsources⟩
    show (b.fields.push (.combine mode terms))[b.fields.size]? = _
    simp
  | event =>
    rw [hr] at hv hvalues
    obtain ⟨terms, hterms, hsources⟩ := viewAll_eq asEvent_eq hvalues
    dsimp only at hv ⊢
    rw [hterms] at hv ⊢
    obtain rfl := Option.some.inj hv
    obtain rfl := Option.some.inj hsource
    refine ⟨terms, ?_, hsources⟩
    show (b.events.push (if mode = .sum then .merge terms else .override terms))[b.events.size]? = _
    simp
  | const | handle | none =>
    rw [ValueType.isSlotted, hr] at ht
    cases ht

end Build

/-! ## What publishers give -/

namespace BusValue

/-- The publishers among writers that give a value to a bus of a type, with their values. Each is followed after those before it. -/
def contributions (a : Analysis) (l : Lowered) (b : Bus) (t : ValueType) : List Writer → Emit (List (Writer × ValueRef))
  | [] => return []
  | x :: rest => do
    let first ← term a l b t x
    let more ← contributions a l b t rest
    return first.1.toList.map (x, ·) ++ more

/-- The publishers of a bus that gave a value, with their values. None is followed if its policy is not kept to. -/
def given (a : Analysis) (l : Lowered) (b : Bus) (t : ValueType) (w : Workbench) : List (Writer × ValueRef) :=
  if (policyProblem? b t (a.patch.publishers b.id)).isSome then []
  else ((contributions a l b t (a.patch.publishers b.id)).run w).1

/-- The values that a bus of a type is reduced from, and whether something was wrong with them. -/
def gather (a : Analysis) (l : Lowered) (b : Bus) (t : ValueType) : Emit (List ValueRef × Bool) :=
  match policyProblem? b t (a.patch.publishers b.id) with
  | some d => do
    Emit.report d
    return ([], true)
  | none => terms a l b t (a.patch.publishers b.id)

variable {a : Analysis} {slots : BusSlots} {l : Lowered} {b : Bus} {t : ValueType} {w : Workbench}

/-- A bus with a slot is lowered by settling what was gathered for it. -/
theorem lower_eq {ix : BusIx} {slot : SlotId} (htype : a.types.busType? ix = some t) (hslot : slots[ix.index]?.join = some slot) :
    lower a slots l ix b
      = gather a l b t >>= fun (values, failed) => settle b t slot (a.patch.publishers b.id).length values failed := by
  unfold lower gather supply
  simp only [htype, hslot]
  cases hproblem : policyProblem? b t (a.patch.publishers b.id) with
  | some d => rfl
  | none => rfl

/-- The values of publishers are those of the publishers that gave one. -/
theorem run_terms (ws : List Writer) (w : Workbench) :
    ((terms a l b t ws).run w).1.1 = ((contributions a l b t ws).run w).1.map (·.2)
      ∧ ((terms a l b t ws).run w).2 = ((contributions a l b t ws).run w).2 := by
  induction ws generalizing w with
  | nil => exact ⟨rfl, rfl⟩
  | cons x rest ih =>
    obtain ⟨hvalues, hstate⟩ := ih ((term a l b t x).run w).2
    refine ⟨?_, hstate⟩
    show ((term a l b t x).run w).1.1.toList ++ ((terms a l b t rest).run ((term a l b t x).run w).2).1.1
      = (((term a l b t x).run w).1.1.toList.map (x, ·) ++ ((contributions a l b t rest).run ((term a l b t x).run w).2).1).map (·.2)
    rw [hvalues, List.map_append, List.map_map]
    congr 1
    cases ((term a l b t x).run w).1.1 <;> rfl

/-- Publishers that gave a value stand in their order. -/
theorem sublist_contributions (ws : List Writer) (w : Workbench) :
    (((contributions a l b t ws).run w).1.map (·.1)).Sublist ws := by
  induction ws generalizing w with
  | nil => exact List.Sublist.refl _
  | cons x rest ih =>
    have hrest := ih ((term a l b t x).run w).2
    show ((((term a l b t x).run w).1.1.toList.map (x, ·)
      ++ ((contributions a l b t rest).run ((term a l b t x).run w).2).1).map (·.1)).Sublist (x :: rest)
    rw [List.map_append]
    cases ((term a l b t x).run w).1.1 with
    | none => exact hrest.cons x
    | some v => exact hrest.cons_cons x

/-- The publishers that gave a value are publishers of the bus, in their order. -/
theorem sublist_given (a : Analysis) (l : Lowered) (b : Bus) (t : ValueType) (w : Workbench) :
    ((given a l b t w).map (·.1)).Sublist (a.patch.publishers b.id) := by
  unfold given
  split
  · exact List.nil_sublist _
  · exact sublist_contributions _ w

/-- What is gathered for a bus are the values that its publishers gave. -/
theorem values_gather (w : Workbench) : ((gather a l b t).run w).1.1 = (given a l b t w).map (·.2) := by
  unfold gather given
  cases policyProblem? b t (a.patch.publishers b.id) with
  | none => exact (run_terms _ w).1
  | some d => rfl

end BusValue

/-! ## One bus -/

section Bus

variable {a : Analysis} (hr : a.registry.AppendOnly) {slots : BusSlots} {l : Lowered} {w : Workbench} {rs : List SlotId} (b : Bus)
  {t : ValueType} (ht : t.isSlotted = true) {slot : SlotId}

/-- What a bus makes of values. -/
def BusValue.value (b : Bus) (t : ValueType) (values : List ValueRef) : Build (Option ValueRef) :=
  if values.isEmpty then default t b.default else Build.reduce t (.multi b.combine) values

include ht in
/-- Several values that fit the type of a bus are combined to a node of all of them. -/
theorem BusValue.value_of_several {values : List ValueRef} (hvalues : ∀ v ∈ values, t.Fits v) (hlength : 2 ≤ values.length) (b₀ : Builder) :
    let r := (value b t values).run b₀
    ∀ v ∈ r.1, ∀ source, v.source? = some source → r.2.IsCombination b.combine values source := by
  have hne : values.isEmpty = false := by
    cases values with
    | nil => cases hlength
    | cons x rest => rfl
  have hplan : (CombinePolicy.multi b.combine).plan values.length = .node values.length := by
    rw [CombinePolicy.plan, if_neg (by omega), if_neg (by omega)]
  have hcombine : value b t values = Build.combine t b.combine values := by
    rw [value, hne, if_neg Bool.false_ne_true, Build.reduce, hplan]
    rfl
  rw [hcombine]
  exact Build.isCombination_combine ht hvalues b.combine b₀

/-- The value of a bus is given to its slot, and nothing is said. -/
theorem BusValue.run_settle {values : List ValueRef} {v : ValueRef} {b' : Builder} {source : SlotSource}
    (hvalue : (value b t values).run w.builder = (some v, b')) (hsource : v.source? = some source) (publishers : Nat) (failed : Bool) :
    ((settle b t slot publishers values failed).run w).2 = { w with builder := ((Build.bind slot source).run b').2 } := by
  have hbuild : (Emit.build (value b t values)).run w = (some v, { w with builder := b' }) := by
    show (((value b t values).run w.builder).1, { w with builder := ((value b t values).run w.builder).2 }) = _
    rw [hvalue]
  unfold settle
  rw [StateT.run_bind]
  rw [value] at hbuild
  simp only [hbuild, bind, hsource]
  rfl

include hr ht

/-- There is a value of a bus, it is what the bus should make of values, and tables only grew for it. -/
theorem BusValue.exists_value {values : List ValueRef} (hw : Regime.appends.Inv rs w.builder) (hvalues : ∀ v ∈ values, t.Fits v) :
    ∃ v b' source, (value b t values).run w.builder = (some v, b') ∧ v.source? = some source ∧ w.builder.Appends b'
      ∧ b'.Fills b t values source := by
  obtain ⟨-, hle, v, source, hv, hsource, -, hfits⟩ := Regime.builds_busValue (Regime.lawful_appends hr).toRouted b ht hw
    fun v hv => ⟨Regime.raw_appends _ v, hvalues v hv⟩
  refine ⟨v, _, source, Prod.ext hv rfl, hsource, hle, (ValueRef.fits_source hsource _).trans hfits, ?_, ?_, fun hlength => ?_⟩
  · rintro rfl
    exact isDefault_default t b.default w.builder v hv source hsource
  · rintro x rfl
    have hx : some x = some v := hv
    rw [Option.some.inj hx]
    exact hsource
  · exact value_of_several b ht hvalues hlength w.builder v hv source hsource

/-- The slot of a bus is filled with what is made of values. -/
theorem BusValue.fills_settle {values : List ValueRef} (hw : Regime.appends.Inv rs w.builder) (hvalues : ∀ v ∈ values, t.Fits v)
    (hslot : w.builder.slotType? slot = some t) (publishers : Nat) (failed : Bool) :
    let w' := ((settle b t slot publishers values failed).run w).2
    ∃ source, w'.builder.slots[slot.index]? = some ⟨t, source⟩ ∧ w'.builder.Fills b t values source := by
  intro w'
  obtain ⟨v, b', source, hvalue, hsource, hle, hfills⟩ := exists_value hr b ht hw hvalues
  have hrun : w'.builder = ((Build.bind slot source).run b').2 :=
    congrArg Workbench.builder (run_settle b hvalue hsource publishers failed)
  rw [hrun]
  refine ⟨source, ?_, hfills.mono (Build.keepsBut_bind b' slot source)⟩
  obtain ⟨old, hold, rfl⟩ := Option.map_eq_some_iff.1 ((hle.keepsBut []).types slot t hslot)
  rw [Build.slots_bind, if_pos rfl, hold]
  rfl

omit ht in
/-- The values that are gathered from publishers have the type of the bus. -/
theorem Regime.emits_gather (hw : appends.Inv rs w.builder) :
    appends.Emits rs (BusValue.gather a l b t) w fun r w' => ∀ y ∈ r.1, appends.Typed t w'.builder y := by
  have L := (lawful_appends hr).toRouted
  unfold BusValue.gather
  cases BusValue.policyProblem? b t (a.patch.publishers b.id) with
  | none => exact emits_busTerms L b t hw fun _ _ v _ => raw_appends _ v
  | some d => exact Emits.bind L (Emits.report L d hw) fun _ w hw _ _ => Emits.pure L hw (List.forall_mem_nil _)

/-- The slot of a bus is filled with what is made of the values that its publishers gave, which are counted. -/
theorem BusValue.fills_lower {ix : BusIx} (htype : a.types.busType? ix = some t) (hs : slots[ix.index]?.join = some slot)
    (hw : Regime.appends.Inv rs w.builder) (hslot : w.builder.slotType? slot = some t) :
    let r := (lower a slots l ix b).run w
    r.1.effective = (given a l b t w).length
      ∧ ∃ source, r.2.builder.slots[slot.index]? = some ⟨t, source⟩ ∧ r.2.builder.Fills b t ((given a l b t w).map (·.2)) source := by
  intro r
  obtain ⟨hinv, hle, hvalues⟩ := Regime.emits_gather (l := l) (t := t) hr b hw
  have hrun : r = (settle b t slot (a.patch.publishers b.id).length ((gather a l b t).run w).1.1 ((gather a l b t).run w).1.2).run
      ((gather a l b t).run w).2 := by
    show (lower a slots l ix b).run w = _
    rw [lower_eq htype hs]
    rfl
  have hlength : ((gather a l b t).run w).1.1.length = (given a l b t w).length := by rw [values_gather, List.length_map]
  rw [hrun, effective_settle, hlength, ← values_gather]
  exact ⟨rfl, fills_settle hr b ht hinv (fun v hv => (hvalues v hv).2) ((hle.keepsBut []).types slot t hslot) _ _⟩

end Bus

/-! ## What is said -/

/-- If a diagnostic says that a bus failed, it says why. -/
def Diagnostic.BlamesPublisher (d : Diagnostic) : Prop := d.code = some .busFailed → d.causes ≠ []

/-- What is wrong with a policy never says that a bus failed. -/
theorem Diagnostic.blamesPublisher_of_isPolicy {d : Diagnostic} (h : d.isPolicy = true) : d.BlamesPublisher := by
  intro hcode
  rw [isPolicy, hcode] at h
  cases h

/-- Nor does what is wrong with the steps of an edge. -/
theorem ChainError.blamesPublisher_diagnostic (e : ChainError) (edge : Edge) : (e.diagnostic edge).BlamesPublisher := by
  obtain ⟨_ | _, _⟩ := e <;> intro hcode <;> cases hcode

/-- Nor does anything that is said of a block. -/
theorem Visit.says_lowerBlock_blame {a : Analysis} (slots : BusSlots) (ix : BlockIx) :
    (lowerBlock a slots ix).Says Diagnostic.BlamesPublisher :=
  says_lowerBlock (fun e _ => e.blamesPublisher_diagnostic _)
    (fun _ h => Diagnostic.blamesPublisher_of_isPolicy (complaint_of_policyProblem h).isPolicy) (fun _ hcode => by cases hcode)
    (fun _ _ hcode => by cases hcode) (fun _ hcode => by cases hcode) slots ix

namespace BusValue

variable {a : Analysis} {l : Lowered}

/-- What was found about a bus before its value is made. -/
theorem says_gather (b : Bus) (t : ValueType) : (gather a l b t).Says Diagnostic.BlamesPublisher := by
  unfold gather
  cases hproblem : policyProblem? b t (a.patch.publishers b.id) with
  | none => exact says_terms (fun edge e _ => List.cons_ne_nil _ _) t _
  | some d => exact (Emit.says_report (Diagnostic.blamesPublisher_of_isPolicy (complaint_of_policyProblem hproblem).isPolicy)).bind fun _ => .pure _

/-- A bus always has a value, so that only its policy and its publishers can be blamed. -/
theorem says_lower_blame (hr : a.registry.AppendOnly) {slots : BusSlots} (hslots : a.SlotsTyped slots) (ix : BusIx) (b : Bus) :
    (lower a slots l ix b).Says Diagnostic.BlamesPublisher := by
  cases hs : slots[ix.index]?.join with
  | none =>
    unfold lower supply
    simp only [hs]
    split
    · exact .pure _
    · split
      · exact .pure _
      · exact (Emit.says_report (Diagnostic.blamesPublisher_of_isPolicy (complaint_of_policyProblem ‹_›).isPolicy)).bind fun _ => .pure _
  | some slot =>
    obtain ⟨t, htype, ht⟩ := hslots ix slot hs
    intro w
    have hinv : Regime.appends.Inv [] w.builder := ⟨.nil, List.forall_mem_nil _⟩
    obtain ⟨hinv', -, hvalues⟩ := Regime.emits_gather (l := l) (t := t) hr b hinv
    obtain ⟨v, b', source, hvalue, hsource, -, -⟩ := exists_value hr b ht hinv' fun v hv => (hvalues v hv).2
    obtain ⟨ds, hds, hblame⟩ := says_gather (a := a) (l := l) b t w
    refine ⟨ds, ?_, hblame⟩
    rw [lower_eq htype hs]
    exact (congrArg Workbench.diagnostics (run_settle b hvalue hsource _ _)).trans hds

/-- Where buses are lowered, a bus that failed is said to have failed because of a publisher. -/
theorem says_lowerAll_blame (hr : a.registry.AppendOnly) {slots : BusSlots} (hslots : a.SlotsTyped slots) (buses : List (BusIx × Bus)) :
    (lowerAll a slots l buses).Says Diagnostic.BlamesPublisher := by
  induction buses with
  | nil => exact .pure _
  | cons x rest ih => exact (says_lower_blame hr hslots x.1 x.2).bind fun _ => ih.bind fun _ => .pure _

end BusValue

/-! ## All buses -/

/-- What is there when a bus is about to be lowered: the buses before it are lowered. -/
def Analysis.beforeBus (a : Analysis) (slots : BusSlots) (l : Lowered) (b₀ : Builder) (ix : BusIx) : Workbench :=
  ((BusValue.lowerAll a slots l (a.patch.placedBuses.take ix.index)).run { builder := b₀ }).2

/-- Buses are lowered one after the other. -/
theorem BusValue.run_lowerAll_append (a : Analysis) (slots : BusSlots) (l : Lowered) (xs ys : List (BusIx × Bus)) (w : Workbench) :
    let r := (lowerAll a slots l xs).run w
    (lowerAll a slots l (xs ++ ys)).run w
      = (r.1 ++ ((lowerAll a slots l ys).run r.2).1, ((lowerAll a slots l ys).run r.2).2) := by
  induction xs generalizing w with
  | nil => rfl
  | cons x rest ih =>
    have hrest := ih ((lower a slots l x.1 x.2).run w).2
    show (((lower a slots l x.1 x.2).run w).1 :: ((lowerAll a slots l (rest ++ ys)).run ((lower a slots l x.1 x.2).run w).2).1,
      ((lowerAll a slots l (rest ++ ys)).run ((lower a slots l x.1 x.2).run w).2).2) = _
    rw [hrest]
    rfl

/-- A bus stands at its place, and all after it at later ones. -/
theorem Normalized.placedBuses_split {n : Normalized} {ix : BusIx} {b : Bus} (hb : n.bus? ix = some b) :
    n.placedBuses = n.placedBuses.take ix.index ++ (ix, b) :: n.placedBuses.drop (ix.index + 1)
      ∧ ∀ x ∈ n.placedBuses.drop (ix.index + 1), ix.index < x.1.index := by
  have hplaced : ∀ i : Nat, n.placedBuses[i]? = (n.buses[i]?).map fun b => (⟨i⟩, b) := fun i => by
    simp [placedBuses, Function.comp_def]
  have hget : n.placedBuses[ix.index]? = some (ix, b) := by
    rw [hplaced, show n.buses[ix.index]? = some b from hb]
    rfl
  obtain ⟨hlt, hat⟩ := List.getElem?_eq_some_iff.1 hget
  refine ⟨?_, fun x hx => ?_⟩
  · rw [← hat, ← List.drop_eq_getElem_cons hlt, List.take_append_drop]
  · obtain ⟨j, hj⟩ := List.getElem?_of_mem hx
    rw [List.getElem?_drop, hplaced] at hj
    obtain ⟨_, -, rfl⟩ := Option.map_eq_some_iff.1 hj
    dsimp only
    omega

/-- When all buses are lowered, the slot of each is filled with what is made of the values that its publishers gave. -/
theorem Analysis.fills_lowerBuses {a : Analysis} (hr : a.registry.AppendOnly) {slots : BusSlots} (l : Lowered) {b₀ : Builder}
    {rs : List SlotId} (hinv : Regime.appends.Inv rs b₀) (hslots : a.SlotsTyped slots) (htypes : a.BusesTyped slots b₀)
    (hdistinct : ∀ (i j : Nat) (s : SlotId), slots[i]?.join = some s → slots[j]?.join = some s → i = j) {ix : BusIx} {bus : Bus}
    (hbus : a.patch.bus? ix = some bus) {slot : SlotId} (hs : slots[ix.index]?.join = some slot) {t : ValueType}
    (htype : a.types.busType? ix = some t) :
    let before := a.beforeBus slots l b₀ ix
    let r := (a.lowerBuses slots l).run { builder := b₀ }
    ∃ o source, r.1[ix.index]? = some o ∧ o.effective = (BusValue.given a l bus t before).length
      ∧ r.2.builder.slots[slot.index]? = some ⟨t, source⟩
      ∧ r.2.builder.Fills bus t ((BusValue.given a l bus t before).map (·.2)) source := by
  intro before r
  obtain ⟨hsplit, hlater⟩ := Normalized.placedBuses_split hbus
  obtain ⟨u, hu, hslotted⟩ := hslots ix slot hs
  obtain rfl := Option.some.inj (htype.symm.trans hu)
  have hkept : b₀.KeepsBut _ before.builder := Regime.keepsBut_lowerAll (w := { builder := b₀ }) hr hslots _ hinv
  obtain ⟨heffective, source, hslot, hfills⟩ := BusValue.fills_lower (l := l) hr bus hslotted htype hs (Regime.inv_appends hinv hkept)
    (hkept.types slot t (htypes ix slot t hs htype))
  let this := (BusValue.lower a slots l ix bus).run before
  let later := a.patch.placedBuses.drop (ix.index + 1)
  have hrun : r = (((BusValue.lowerAll a slots l (a.patch.placedBuses.take ix.index)).run { builder := b₀ }).1
      ++ (this.1 :: ((BusValue.lowerAll a slots l later).run this.2).1), ((BusValue.lowerAll a slots l later).run this.2).2) :=
    (congrArg (fun xs => (BusValue.lowerAll a slots l xs).run { builder := b₀ }) hsplit).trans
      (BusValue.run_lowerAll_append a slots l _ _ _)
  -- the buses that follow have slots of their own
  have hafter := Regime.keepsBut_lowerAll (l := l) hr hslots later
    (Regime.inv_appends (Regime.inv_appends hinv hkept) (Regime.keepsBut_lower (l := l) hr hslots ix bus (Regime.inv_appends hinv hkept)))
  have hother : slot ∉ later.flatMap fun x => slots[x.1.index]?.join.toList := by
    intro hmem
    obtain ⟨x, hx, hmem⟩ := List.mem_flatMap.1 hmem
    exact Nat.ne_of_lt (hlater x hx) (hdistinct _ _ _ hs (Option.mem_toList.1 hmem))
  rw [hrun]
  refine ⟨this.1, source, ?_, heffective, hafter.slots slot hother _ hslot, hfills.mono hafter⟩
  have hlength : ((BusValue.lowerAll a slots l (a.patch.placedBuses.take ix.index)).run { builder := b₀ }).1.length = ix.index := by
    have hlt : ix.index < a.patch.buses.length := (List.getElem?_eq_some_iff.1 hbus).1
    rw [BusValue.length_lowerAll, List.length_take, Normalized.placedBuses, List.length_map, List.length_zipIdx]
    exact Nat.min_eq_left (Nat.le_of_lt hlt)
  show (_ ++ this.1 :: _)[ix.index]? = _
  rw [List.getElem?_append_right (Nat.le_of_eq hlength), hlength, Nat.sub_self]
  rfl

/-! ## Publishers in order -/

/-- An edge comes before another: by its sort key, which is zero if absent, then by its id. -/
def Edge.Precedes (e f : Edge) : Prop :=
  e.sortKey.getD 0 < f.sortKey.getD 0 ∨ e.sortKey.getD 0 = f.sortKey.getD 0 ∧ Text.bytes e.id ≤ Text.bytes f.id

/-- Writers that are taken from edges in order stand in the order of these edges. -/
theorem Normalized.pairwise_filterMap {n : Normalized} {R : Edge → Edge → Prop} (h : n.edges.Pairwise R) {xs : List (Edge × Nat)}
    (hxs : xs.Sublist n.edges.zipIdx) {writer? : Edge × Nat → Option Writer}
    (hwriter : ∀ x w, writer? x = some w → n.writerOf? x.1 x.2 = some w) : (xs.filterMap writer?).Pairwise fun x y =>
      ∃ e f, x.edge?.bind (n.edges[·]?) = some e ∧ y.edge?.bind (n.edges[·]?) = some f ∧ R e f := by
  have hplaced : n.edges.zipIdx.Pairwise fun x y => R x.1 y.1 := by
    rwa [← List.pairwise_map, List.zipIdx_map_fst]
  have hedge : ∀ x ∈ xs, ∀ w, writer? x = some w → w.edge?.bind (n.edges[·]?) = some x.1 := by
    intro x hx w hw
    rw [(edge?_writerOf? (hwriter x w hw)).1]
    exact List.mk_mem_zipIdx_iff_getElem?.1 (hxs.subset hx)
  refine List.pairwise_filterMap.2 ((hplaced.sublist hxs).imp_of_mem ?_)
  intro x y hx hy hxy v hv w hw
  exact ⟨x.1, y.1, hedge x hx v hv, hedge y hy w hw, hxy⟩

/-- The publishers of a bus stand in the order of their edges. -/
theorem Normalized.pairwise_publishers {n : Normalized} {R : Edge → Edge → Prop} (h : n.edges.Pairwise R) (bus : String) :
    (n.publishers bus).Pairwise fun x y => ∃ e f, x.edge?.bind (n.edges[·]?) = some e ∧ y.edge?.bind (n.edges[·]?) = some f ∧ R e f := by
  refine pairwise_filterMap h List.filter_sublist fun x w hw => ?_
  obtain ⟨e, i⟩ := x
  dsimp only at hw
  cases hsource : e.source with
  | port _ _ => rwa [hsource] at hw
  | bus _ =>
    rw [hsource] at hw
    cases hw

/-- The publishers that gave a value to a bus of a patch stand in the order of their edges. -/
theorem Patch.pairwise_given (p : Patch) (r : Registry) (time : Time) (l : Lowered) (b : Bus) (t : ValueType) (w : Workbench) :
    let a := p.analysis r time
    ((BusValue.given a l b t w).map (·.1)).Pairwise fun x y => ∃ e f, a.edge? x = some e ∧ a.edge? y = some f ∧ e.Precedes f := by
  have hedges : (p.normalize r).1.edges.Pairwise Edge.Precedes := p.ordered_sortedEdges.imp Edge.order_isLE_iff.1
  exact (Normalized.pairwise_publishers hedges b.id).sublist (BusValue.sublist_given _ l b t w)

/-! ## Compiling -/

namespace Analysis

variable {a : Analysis} (hr : a.registry.AppendOnly) (consts : Pool) (options : Options)

include hr

/-- While blocks and buses are lowered, a bus that failed has a publisher to blame. -/
theorem blamesPublisher_emission :
    let e := a.emission consts options
    ∀ d ∈ e.afterBlocks.diagnostics ++ e.afterBuses.diagnostics, d.BlamesPublisher := by
  intro e
  have hblocks : a.emitBlocks.Says Diagnostic.BlamesPublisher :=
    (Emit.says_build _).bind fun _ => (Emit.says_build _).bind fun slots =>
      ((Visit.says_lowerNodes (Visit.says_lowerBlock_blame slots) _ {}).bind fun _ => .pure _).bind fun _ => .pure _
  exact List.forall_mem_append.2 ⟨hblocks.all _,
    (BusValue.says_lowerAll_blame hr (a.typed_busSlots { consts, timeModel := some a.time.model }).1 a.patch.placedBuses).all _⟩

/-- In an emission the slots of all buses are filled. -/
theorem fills_emission (hbuses : a.types.buses.length = a.patch.buses.length) :
    let e := a.emission consts options
    ∀ (ix : BusIx) (slot : SlotId), e.slots[ix.index]? = some (some slot) → ∃ bus t o source,
      a.patch.bus? ix = some bus ∧ a.types.busType? ix = some t ∧ e.buses[ix.index]? = some o
        ∧ e.afterBuses.builder.slots[slot.index]? = some ⟨t, source⟩
        ∧ let given := BusValue.given a e.lowered bus t (a.beforeBus e.slots e.lowered e.afterBlocks.builder ix)
          o.effective = given.length ∧ e.afterBuses.builder.Fills bus t (given.map (·.2)) source := by
  intro e ix slot hslot
  have hjoin : e.slots[ix.index]?.join = some slot := congrArg Option.join hslot
  obtain ⟨hinv, htypes, -, -⟩ := appends_emission hr consts options
  have hreserved := a.reserved_reserveBusSlots consts
  obtain ⟨t, ht, -⟩ := hreserved.typed ix slot hjoin
  obtain ⟨bus, hplaced⟩ := hreserved.typed.mem_placedBuses hbuses ix hjoin
  have hbus : a.patch.bus? ix = some bus := Normalized.bus?_of_mem_placedBuses hplaced
  obtain ⟨o, source, ho, heffective, hsource, hfills⟩ :=
    fills_lowerBuses hr e.lowered hinv hreserved.typed htypes hreserved.injective hbus hjoin ht
  exact ⟨bus, t, o, source, hbus, ht, ho, hsource, heffective, hfills⟩

end Analysis

/-- Every slot that was reserved for a bus is filled when the buses are lowered, whatever the lowerings and the transforms of the registry
return, as long as they only append, and whatever is reported of the bus. Its source has the form that the type of the bus asks for.
Without a publisher that gave a value it is the default of the bus; what a single one gave passes as it is; of several it is one node,
whose terms are theirs in the order of the edges. That a bus has neither a value nor a default is never reported. -/
theorem bus_slots_filled {p : Patch} {r : Registry} {options : Options} (hr : r.AppendOnly) {buses : List BusOutcome}
    (hreached : (Compilation.run { patch := p, registry := r, options } .lowerBuses).state.artifacts.buses = some buses) :
    let c := (Compilation.run { patch := p, registry := r, options } .lowerBuses).state
    ∃ time slots lowered b₀ b, c.artifacts.time = some time ∧ c.artifacts.busSlots = some slots ∧ c.artifacts.lowered = some lowered
      ∧ (Compilation.run { patch := p, registry := r, options } .lowerBlocks).state.builder = some b₀ ∧ c.builder = some b
      ∧ (∀ bus t, BusValue.noValue bus t ∉ c.diagnostics)
      ∧ ∀ (ix : BusIx) (slot : SlotId), slots[ix.index]? = some (some slot) → ∃ bus t o source,
        (p.normalize r).1.bus? ix = some bus ∧ ValueType.parse? bus.type = some t ∧ buses[ix.index]? = some o
          ∧ b.slots[slot.index]? = some ⟨t, source⟩ ∧ source.fits t.representation = true
          ∧ let a := p.analysis r time
            let given := BusValue.given a lowered bus t (a.beforeBus slots lowered b₀ ix)
            o.effective = given.length ∧ (given.map (·.1)).Sublist (a.patch.publishers bus.id)
              ∧ (given.map (·.1)).Pairwise (fun x y => ∃ e f, a.edge? x = some e ∧ a.edge? y = some f ∧ e.Precedes f)
              ∧ (given = [] → b.IsDefault t bus.default source)
              ∧ (∀ x, given = [x] → x.2.source? = some source)
              ∧ (2 ≤ given.length → b.IsCombination bus.combine (given.map (·.2)) source) := by
  intro c
  obtain ⟨time, hpasses⟩ := passes_of_buses hreached
  obtain ⟨htime, hslots, hlowered, hbuses, hbuilder, hsaid, hbefore⟩ := hpasses.run_lowerBuses options
  have hblame := Analysis.blamesPublisher_emission (a := p.analysis r time) hr (p.normalize r).2 options
  have hfilled := Analysis.fills_emission (a := p.analysis r time) hr (p.normalize r).2 options (List.length_map _)
  generalize (p.analysis r time).emission (p.normalize r).2 options = e at hslots hlowered hbuses hbuilder hsaid hbefore hblame hfilled
  obtain rfl := Option.some.inj (hreached.symm.trans hbuses)
  refine ⟨time, e.slots, e.lowered, e.afterBlocks.builder, e.afterBuses.builder, htime, hslots, hlowered, hbefore, hbuilder,
    fun bus t hmem => hblame _ (hsaid ▸ hmem) rfl rfl, fun ix slot hslot => ?_⟩
  obtain ⟨bus, t, o, source, hbus, ht, ho, hsource, heffective, hfills⟩ := hfilled ix slot hslot
  have hparse : ValueType.parse? bus.type = some t := by
    have hget : (p.normalize r).1.buses[ix.index]? = some bus := hbus
    have htable : (Typing.table (p.normalize r).1 r).busType? ix = some t := ht
    rwa [TypeTable.busType?, Typing.table, List.getElem?_map, hget, Option.map_some, Option.join_some] at htable
  refine ⟨bus, t, o, source, hbus, hparse, ho, hsource, hfills.fits, heffective, BusValue.sublist_given _ _ _ _ _,
    p.pairwise_given r time _ _ _ _, fun hnone => hfills.ofNone ?_, fun x hone => hfills.ofOne _ ?_, fun hseveral => hfills.ofSeveral ?_⟩
  · rw [hnone, List.map_nil]
  · rw [hone, List.map_singleton]
  · rwa [List.length_map]

namespace LooseBuses

/-- Blocks and a lens that return names of nothing. -/
def registry : Registry where
  blocks := strayRegistry.blocks
  lenses := Dict.insert {} "lose"
    { decl := { id := "lose", kind := .lens }
      transform := some (.custom fun _ _ => return .field ⟨77⟩ ⟨77⟩)
      origin := "" }

/-- All lowerings and transforms of the registry only add to the tables. -/
theorem appendOnly : registry.AppendOnly where
  lowerings e he run hrun := by
    rcases Dict.mem_values_insert he with rfl | he
    · obtain rfl := Lowering.custom.inj (Option.some.inj hrun)
      exact fun _ _ b => .refl b
    · exact Registry.Loaded.builtin.standard.appendOnly.lowerings e he run hrun
  transforms kind e he run hrun := by
    cases kind with
    | adapter => cases he
    | lens =>
      rcases Dict.mem_values_insert he with rfl | he
      · obtain rfl := Transform.custom.inj (Option.some.inj hrun)
        exact fun _ _ b => .refl b
      · cases he

/-- Two stray blocks publish to two buses, of which one takes a single publisher only. -/
def patch : Patch where
  blocks := [⟨"a", "Stray", {}, {}⟩, ⟨"b", "Stray", {}, {}⟩, ⟨"t", "InfiniteTimeRoot", {}, {}⟩]
  edges := [{ id := "e1", source := .port "a" "out", target := .bus "k" },
    { id := "e2", source := .port "b" "out", target := .bus "k", lenses := [{ id := "lose" }] },
    { id := "e3", source := .port "a" "out", target := .bus "z" },
    { id := "e4", source := .port "b" "out", target := .bus "z" }]
  buses := [{ id := "k", type := "Field<float>" }, { id := "z", type := "Field<float>", combine := .error }]

def normal : Normalized := ⟨patch.blocks, patch.buses, patch.edges, {}, []⟩

def time : Time := ⟨⟨2⟩, .infinite (.ofInt 10000)⟩

def analysis : Analysis where
  patch := normal
  types := Typing.table normal registry
  time := time
  graph := normal.dependencies registry
  cycles := (normal.dependencies registry).condense normal registry
  registry := registry

/-- The patch is written in normal order. -/
theorem normalize_eq : patch.normalize registry = (normal, {}) := by
  have hnormal : patch.Canonical ∧ patch.blocks.zipIdx.flatMap (fun x => Patch.openInputs registry patch.edges ⟨x.2⟩ x.1) = [] := by
    decide +kernel
  exact hnormal.1.normalize_eq hnormal.2

theorem analysis_eq : patch.analysis registry time = analysis := by
  rw [Patch.analysis, normalize_eq]
  rfl

/-- What the buses of the patch are made of. -/
theorem checks_eq :
    (normal.typeDiagnostics registry = [] ∧ Time.resolve normal registry = .ok time
      ∧ normal.dependencyDiagnostics registry = [] ∧ (normal.dependencies registry).cycleDiagnostics normal registry = [])
    ∧ (analysis.emission {} {}).slots = [some ⟨0⟩, some ⟨1⟩]
    ∧ (analysis.emission {} {}).buses.map (fun o => (o.effective, o.failed)) = [(2, false), (0, true)] := by
  decide +kernel

theorem passes : (patch.normalize registry).1.Passes registry time := by
  rw [normalize_eq]
  obtain ⟨⟨htypes, htime, hdependencies, hcycles⟩, -⟩ := checks_eq
  exact ⟨htypes, htime, hdependencies, hcycles⟩

end LooseBuses

/-- The bus of two publishers combines what they return, though it is nothing; the other one was reported and has its default. -/
theorem bus_slots_filled_looseBuses :
    let c := (Compilation.run { patch := LooseBuses.patch, registry := LooseBuses.registry, options := {} } .lowerBuses).state
    let t : ValueType := { world := .field, domain := .float }
    ∃ buses b, c.artifacts.buses = some buses ∧ c.builder = some b
      ∧ buses.map (fun o => (o.effective, o.failed)) = [(2, false), (0, true)]
      ∧ (∃ source values, b.slots[0]? = some ⟨t, source⟩ ∧ values.length = 2 ∧ b.IsCombination .last values source)
      ∧ ∃ source, b.slots[1]? = some ⟨t, source⟩ ∧ b.IsDefault t none source := by
  intro c t
  obtain ⟨-, hslots, -, hbuses, -⟩ := LooseBuses.passes.run_lowerBuses {}
  rw [LooseBuses.analysis_eq, LooseBuses.normalize_eq] at hslots hbuses
  obtain ⟨-, hplaces, hcounts⟩ := LooseBuses.checks_eq
  rw [hplaces] at hslots
  generalize (LooseBuses.analysis.emission {} {}).buses = buses at hbuses hcounts
  obtain ⟨time, slots, lowered, b₀, b, -, hslots', -, -, hbuilder, -, hfilled⟩ := bus_slots_filled LooseBuses.appendOnly hbuses
  obtain rfl := Option.some.inj (hslots.symm.trans hslots')
  rw [LooseBuses.normalize_eq] at hfilled
  have hparse : ValueType.parse? "Field<float>" = some t := by decide +kernel
  have heffective : ∀ (i : Nat) (o : BusOutcome), buses[i]? = some o → [(2, false), (0, true)][i]? = some (o.effective, o.failed) :=
    fun i o ho => by rw [← hcounts, List.getElem?_map, ho, Option.map_some]
  refine ⟨buses, b, hbuses, hbuilder, hcounts, ?_, ?_⟩
  · obtain ⟨bus, u, o, source, hbus, hu, ho, hsource, -, hlength, -, -, -, -, hseveral⟩ := hfilled ⟨0⟩ ⟨0⟩ rfl
    obtain rfl := Option.some.inj hbus
    obtain rfl := Option.some.inj (hparse.symm.trans hu)
    have htwo : 2 = o.effective := congrArg Prod.fst (Option.some.inj (heffective 0 o ho))
    exact ⟨source, _, hsource, (List.length_map _).trans (hlength.symm.trans htwo.symm), hseveral (by omega)⟩
  · obtain ⟨bus, u, o, source, hbus, hu, ho, hsource, -, hlength, -, -, hnone, -, -⟩ := hfilled ⟨1⟩ ⟨1⟩ rfl
    obtain rfl := Option.some.inj hbus
    obtain rfl := Option.some.inj (hparse.symm.trans hu)
    have hzero : 0 = o.effective := congrArg Prod.fst (Option.some.inj (heffective 1 o ho))
    exact ⟨source, hsource, hnone (List.eq_nil_of_length_eq_zero (hlength.symm.trans hzero.symm))⟩

end PatchGraph
