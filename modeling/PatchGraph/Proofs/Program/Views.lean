import PatchGraph.Proofs.Program.Steps

/-!
# Values, their views and reductions

Every step that makes a value out of others keeps to a regime that the elementary steps keep to. Two of these steps also say which form
their value has, whatever they are given: a coerced value has the form that the type asks for, and so has a reduction of such values.
-/

namespace PatchGraph

/-- A value of the form that a type asks for fits the type. -/
theorem ValueType.Fits.of_mem {t : ValueType} {form : Representation} {v w : ValueRef} (ht : t.representation = form)
    (hw : w ∈ some v) (hv : v.fits form = true) : t.Fits w := by
  obtain rfl := Option.mem_some.1 hw
  rwa [Fits, ht]

/-- A value of a type that lives in slots is an expression. -/
theorem ValueType.Fits.source {t : ValueType} {v : ValueRef} (hv : t.Fits v) (ht : t.isSlotted = true) :
    ∃ source, v.source? = some source := by
  unfold Fits at hv
  unfold isSlotted at ht
  cases hr : t.representation <;> rw [hr] at hv ht
  case signal | field | event =>
    cases v <;> first
      | exact ⟨_, rfl⟩
      | exact absurd hv Bool.false_ne_true
  all_goals exact absurd ht Bool.false_ne_true

namespace Regime

open Build

variable {R : Regime} (L : R.Elementary) {rs : List SlotId} {b : Builder}

include L

/-! ## New values -/

/-- A constant is usable. -/
theorem builds_constant (hb : R.Inv rs b) (v : Value) (t : ValueType) : R.Builds rs (constant v t) b fun v b' => R.Raw b' v :=
  (L.intern v hb).bind L fun _ _ hb _ hc => .pure L hb (raw_const.2 hc)

omit L in
/-- A value that is apt for some type is usable. -/
theorem Builds.raw {m : Build ValueRef} {t : ValueType} (h : R.Builds rs m b fun v b' => R.Apt t b' v) :
    R.Builds rs m b fun v b' => R.Raw b' v :=
  ⟨h.1, h.2.1, h.2.2.1⟩

/-- A new slot is of the type that it was made for. -/
theorem builds_slotFor (hb : R.Inv rs b) {source : SlotSource} {t : ValueType} (hne : source ≠ .unbound)
    (ht : R.Strict → source.fits t.representation = true) (hsource : ∀ x ∈ source.names, R.Usable b x) :
    R.Builds rs (slotFor t source) b fun s b' => R.Usable b' (.slot s) ∧ b'.slotType? s = some t :=
  (L.slotFor hb hne ht hsource).and (slotType?_slotFor b t source)

/-- The value that a signal is registered as is apt if its type is that of a signal. -/
theorem builds_signalValue (hb : R.Inv rs b) {e : SignalId} (he : R.Usable b (.signal e)) {t : ValueType}
    (ht : R.Strict → t.representation = .signal) : R.Builds rs (signalValue e t) b fun v b' => R.Apt t b' v := by
  have hsource : ∀ x ∈ (SlotSource.signal e).names, R.Usable b x := List.forall_mem_singleton.2 he
  have hfits : ∀ s, R.Strict → t.Fits (.signal e s) := fun s hstrict => by rw [ValueType.Fits, ht hstrict]; rfl
  have hform : R.Strict → (SlotSource.signal e).fits t.representation = true := fun hstrict => by rw [ht hstrict]; rfl
  refine (builds_slotFor L hb SlotSource.noConfusion hform hsource).bind L fun s b' hb' hle hs => .pure L hb' ⟨?_, hfits s⟩
  exact raw_signal.2 ⟨L.mono hle he, hs.1, fun hstrict => ⟨t, hs.2, hfits s hstrict⟩⟩

/-- The value that a field is registered as is apt if its type is that of a field. -/
theorem builds_fieldValue (hb : R.Inv rs b) {e : FieldId} (he : R.Usable b (.field e)) {t : ValueType}
    (ht : R.Strict → t.representation = .field) : R.Builds rs (fieldValue e t) b fun v b' => R.Apt t b' v := by
  have hsource : ∀ x ∈ (SlotSource.field e).names, R.Usable b x := List.forall_mem_singleton.2 he
  have hfits : ∀ s, R.Strict → t.Fits (.field e s) := fun s hstrict => by rw [ValueType.Fits, ht hstrict]; rfl
  have hform : R.Strict → (SlotSource.field e).fits t.representation = true := fun hstrict => by rw [ht hstrict]; rfl
  refine (builds_slotFor L hb SlotSource.noConfusion hform hsource).bind L fun s b' hb' hle hs => .pure L hb' ⟨?_, hfits s⟩
  exact raw_field.2 ⟨L.mono hle he, hs.1, fun hstrict => ⟨t, hs.2, hfits s hstrict⟩⟩

/-- The value that an event is registered as is apt if its type is that of an event. -/
theorem builds_eventValue (hb : R.Inv rs b) {e : EventId} (he : R.Usable b (.event e)) {t : ValueType}
    (ht : R.Strict → t.representation = .event) : R.Builds rs (eventValue e t) b fun v b' => R.Apt t b' v := by
  have hsource : ∀ x ∈ (SlotSource.event e).names, R.Usable b x := List.forall_mem_singleton.2 he
  have hfits : ∀ s, R.Strict → t.Fits (.event e s) := fun s hstrict => by rw [ValueType.Fits, ht hstrict]; rfl
  have hform : R.Strict → (SlotSource.event e).fits t.representation = true := fun hstrict => by rw [ht hstrict]; rfl
  refine (builds_slotFor L hb SlotSource.noConfusion hform hsource).bind L fun s b' hb' hle hs => .pure L hb' ⟨?_, hfits s⟩
  exact raw_event.2 ⟨L.mono hle he, hs.1, fun hstrict => ⟨t, hs.2, hfits s hstrict⟩⟩

/-- A new signal in a slot of its own. -/
theorem builds_newSignal (hb : R.Inv rs b) {e : SignalExpr} (hread : e.slot? = none) (hstate : e.state? = none)
    (he : ∀ x ∈ e.names, R.Usable b x) {t : ValueType} (ht : t.representation = .signal) :
    R.Builds rs (do return some (← signalValue (← signal e) t)) b fun o b' => ∀ v ∈ o, R.Raw b' v :=
  (L.signal hb hread hstate he).bind L fun _ _ hb _ hx => (builds_signalValue L hb hx fun _ => ht).bind L fun _ _ hb _ hv =>
    .pure_some L hb hv.1

/-- A new field in a slot of its own. -/
theorem builds_newField (hb : R.Inv rs b) {e : FieldExpr} (hread : e.slot? = none) (he : ∀ x ∈ e.names, R.Usable b x)
    {t : ValueType} (ht : t.representation = .field) :
    R.Builds rs (do return some (← fieldValue (← field e) t)) b fun o b' => ∀ v ∈ o, R.Raw b' v :=
  (L.field hb hread he).bind L fun _ _ hb _ hx => (builds_fieldValue L hb hx fun _ => ht).bind L fun _ _ hb _ hv =>
    .pure_some L hb hv.1

/-- A new event in a slot of its own. -/
theorem builds_newEvent (hb : R.Inv rs b) {e : EventExpr} (hread : e.slot? = none) (he : ∀ x ∈ e.names, R.Usable b x)
    {t : ValueType} (ht : t.representation = .event) :
    R.Builds rs (do return some (← eventValue (← event e) t)) b fun o b' => ∀ v ∈ o, R.Raw b' v :=
  (L.event hb hread he).bind L fun _ _ hb _ hx => (builds_eventValue L hb hx fun _ => ht).bind L fun _ _ hb _ hv =>
    .pure_some L hb hv.1

/-- Expressions that read a slot keep to a regime. -/
structure Readable (R : Regime) (rs : List SlotId) (s : SlotId) (b : Builder) : Prop where
  slot : R.Usable b (.slot s)
  signal : R.Builds rs (Build.signal (.read s)) b fun x b' => R.Usable b' (.signal x)
  field : R.Builds rs (Build.field (.read s)) b fun x b' => R.Usable b' (.field x)
  event : R.Builds rs (Build.event (.read s)) b fun x b' => R.Usable b' (.event x)

/-- What is read from a slot has the form that the type of the slot asks for. -/
theorem builds_readSlot (hb : R.Inv rs b) {s : SlotId} (hread : R.Readable rs s b) :
    R.Builds rs (readSlot s) b fun o b' => ∀ v ∈ o, R.Raw b' v := by
  refine Builds.get_bind ?_
  cases ht : b.slotType? s with
  | none => exact .pure_none L hb
  | some t =>
    have hsuits : ∀ {b' : Builder} {v : ValueRef}, R.Le b b' → t.representation = v.form →
        R.Strict → ∃ t, b'.slotType? s = some t ∧ t.Fits v :=
      fun hle hform hstrict => ⟨t, L.slotType (L.steady hstrict) hle ht, ValueType.fits_iff.2 hform⟩
    dsimp only
    split
    · rename_i hform
      refine hread.signal.bind L fun x b' hb' hle hx => .pure_some L hb' ?_
      exact raw_signal.2 ⟨hx, L.mono hle hread.slot, hsuits hle hform⟩
    · rename_i hform
      refine hread.field.bind L fun x b' hb' hle hx => .pure_some L hb' ?_
      exact raw_field.2 ⟨hx, L.mono hle hread.slot, hsuits hle hform⟩
    · rename_i hform
      refine hread.event.bind L fun x b' hb' hle hx => .pure_some L hb' ?_
      exact raw_event.2 ⟨hx, L.mono hle hread.slot, hsuits hle hform⟩
    all_goals exact .pure_none L hb

/-! ## Views -/

/-- A usable value that can be seen as a signal gives a usable signal. -/
theorem builds_asSignal (hb : R.Inv rs b) {v : ValueRef} (hv : R.Raw b v) :
    R.Builds rs (asSignal v) b fun o b' => ∀ x ∈ o, R.Usable b' (.signal x) := by
  cases v with
  | const c t => exact (L.signal (e := .const c) hb rfl rfl hv.1).bind L fun _ _ hb _ hx => .pure_some L hb hx
  | signal e s => exact .pure_some L hb (raw_signal.1 hv).1
  | field e s => exact .pure_none L hb
  | event e s => exact .pure_none L hb
  | special h => exact .pure_none L hb

/-- A usable value that can be seen as a field gives a usable field. -/
theorem builds_asField (hb : R.Inv rs b) {v : ValueRef} (hv : R.Raw b v) :
    R.Builds rs (asField v) b fun o b' => ∀ x ∈ o, R.Usable b' (.field x) := by
  cases v with
  | const c t => exact (L.field (e := .const c) hb rfl hv.1).bind L fun _ _ hb _ hx => .pure_some L hb hx
  | signal e s =>
    have he := List.forall_mem_singleton.2 (raw_signal.1 hv).1
    exact (L.field (e := .broadcast e) hb rfl he).bind L fun _ _ hb _ hx => .pure_some L hb hx
  | field e s => exact .pure_some L hb (raw_field.1 hv).1
  | event e s => exact .pure_none L hb
  | special h => exact .pure_none L hb

/-- A usable value that can be seen as an event gives a usable event. -/
theorem builds_asEvent (hb : R.Inv rs b) {v : ValueRef} (hv : R.Raw b v) :
    R.Builds rs (asEvent v) b fun o b' => ∀ x ∈ o, R.Usable b' (.event x) := by
  cases v with
  | event e s => exact .pure_some L hb (raw_event.1 hv).1
  | const c t => exact .pure_none L hb
  | signal e s => exact .pure_none L hb
  | field e s => exact .pure_none L hb
  | special h => exact .pure_none L hb

/-- A coerced value is usable. -/
theorem builds_coerce (hb : R.Inv rs b) {v : ValueRef} (hv : R.Raw b v) (t : ValueType) :
    R.Builds rs (coerce v t) b fun o b' => ∀ w ∈ o, R.Raw b' w := by
  unfold coerce
  split
  case h_1 => exact .pure_some L hb (raw_const.2 (raw_const.1 hv))
  case h_3 => exact builds_newSignal L hb (e := .const _) rfl rfl hv.1 ‹_›
  case h_5 => exact builds_newField L hb (e := .const _) rfl hv.1 ‹_›
  case h_6 => exact builds_newField L hb (e := .broadcast _) rfl (List.forall_mem_singleton.2 (raw_signal.1 hv).1) ‹_›
  case h_9 => exact .pure_none L hb
  all_goals exact .pure_some L hb hv

/-! ## Reductions -/

/-- Views of values, one after the other: a name that one view gives may still be used when the others were taken. -/
theorem builds_viewAll {α : Type} {view : ValueRef → Build (Option α)} {name : α → Name}
    (hview : ∀ v b, R.Inv rs b → R.Raw b v → R.Builds rs (view v) b fun o b' => ∀ a ∈ o, R.Usable b' (name a))
    (vs : List ValueRef) (hb : R.Inv rs b) (hvs : ∀ v ∈ vs, R.Raw b v) :
    R.Builds rs (viewAll view vs) b fun o b' => ∀ as ∈ o, ∀ x ∈ as.map name, R.Usable b' x := by
  induction vs generalizing b with
  | nil => exact .pure_some L hb nofun
  | cons v rest ih =>
    obtain ⟨hv, hrest⟩ := List.forall_mem_cons.1 hvs
    refine (hview v b hb hv).bind L fun o b' hb' hle ho => ?_
    cases o with
    | none => exact .pure_none L hb'
    | some a =>
      refine (ih hb' fun w hw => L.raw_mono hle (hrest w hw)).bind L fun o b'' hb'' hle' has => ?_
      cases o with
      | none => exact .pure_none L hb''
      | some as => exact .pure_some L hb'' (List.forall_mem_cons.2 ⟨L.mono hle' (ho a rfl), has as rfl⟩)

/-- Values are combined by a mode that their type allows, which only types without slots ask for. -/
theorem builds_combine (hb : R.Inv rs b) {t : ValueType} {mode : CombineMode} (hmode : t.isSlotted = true ∨ t.allows mode = true)
    {terms : List ValueRef} (hterms : ∀ v ∈ terms, R.Raw b v) :
    R.Builds rs (combine t mode terms) b fun o b' => ∀ w ∈ o, R.Raw b' w := by
  unfold combine
  split
  · rename_i ht
    refine (builds_viewAll L (fun _ _ hb hv => builds_asSignal L hb hv) terms hb hterms).bind L fun o b hb _ ho => ?_
    cases o with
    | none => exact .pure_none L hb
    | some ids => exact builds_newSignal L hb (e := .combine mode ids) rfl rfl (ho ids rfl) ht
  · rename_i ht
    refine (builds_viewAll L (fun _ _ hb hv => builds_asField L hb hv) terms hb hterms).bind L fun o b hb _ ho => ?_
    cases o with
    | none => exact .pure_none L hb
    | some ids => exact builds_newField L hb (e := .combine mode ids) rfl (ho ids rfl) ht
  · rename_i ht
    refine (builds_viewAll L (fun _ _ hb hv => builds_asEvent L hb hv) terms hb hterms).bind L fun o b hb _ ho => ?_
    cases o with
    | none => exact .pure_none L hb
    | some ids =>
      dsimp only
      split
      · exact builds_newEvent L hb (e := .merge ids) rfl (ho ids rfl) ht
      · exact builds_newEvent L hb (e := .override ids) rfl (ho ids rfl) ht
  · rename_i ht
    have hallows := hmode.resolve_left (by simp [ValueType.isSlotted, ht])
    refine (L.assert hb hallows (.inl ht)).bind L fun _ b hb hle _ => ?_
    exact .pure L hb fun w hw => L.raw_mono hle (hterms w (List.mem_of_getLast? hw))
  · rename_i ht
    have hallows := hmode.resolve_left (by simp [ValueType.isSlotted, ht])
    refine (L.assert hb hallows (.inr ht)).bind L fun _ b hb hle _ => ?_
    exact .pure L hb fun w hw => L.raw_mono hle (hterms w (List.mem_of_getLast? hw))
  · exact .pure_none L hb

/-- A reduction of usable values is usable, if the policy was checked or the type lives in slots. -/
theorem builds_reduce (hb : R.Inv rs b) {t : ValueType} {p : CombinePolicy} (hmode : t.isSlotted = true ∨ t.allows p.mode = true)
    {terms : List ValueRef} (hterms : ∀ v ∈ terms, R.Raw b v) :
    R.Builds rs (reduce t p terms) b fun o b' => ∀ w ∈ o, R.Raw b' w := by
  unfold reduce
  split
  · exact .pure_none L hb
  · exact .pure L hb fun w hw => hterms w (List.mem_of_getLast? hw)
  · exact builds_combine L hb hmode hterms

end Regime

namespace Build

variable {α β : Type}

/-! ## The form of a value -/

/-- What a step returns satisfies a condition, whatever it is run on. -/
def Returns (m : Build α) (P : α → Prop) : Prop := ∀ b, P (m.run b).1

theorem Returns.pure {P : α → Prop} {a : α} (h : P a) : Returns (pure a) P := fun _ => h

/-- What two steps return is returned by the second. -/
theorem Returns.bind {m : Build α} {f : α → Build β} {P : α → Prop} {Q : β → Prop} (h : m.Returns P)
    (hf : ∀ a, P a → (f a).Returns Q) : (m >>= f).Returns Q :=
  fun b => hf (m.run b).1 (h b) (m.run b).2

theorem Returns.trivial (m : Build α) : m.Returns fun _ => True := fun _ => .intro

/-- A coerced value fits the type, whatever it was made of. -/
theorem returns_coerce (v : ValueRef) (t : ValueType) : (coerce v t).Returns fun o => ∀ w ∈ o, t.Fits w := by
  unfold coerce
  split
  case h_9 => exact .pure fun w hw => absurd hw (Option.not_mem_none w)
  all_goals
    rename_i hr
    exact fun b w hw => .of_mem hr hw rfl

/-- Among values without a slot, only constants become values of a type that lives in slots. -/
theorem returns_coerce_const {v : ValueRef} {t : ValueType} (hv : v.slot? = none) (ht : t.isSlotted = true) :
    (coerce v t).Returns fun o => ∀ w ∈ o, v.form = .const := by
  cases v with
  | const c u => exact fun _ _ _ => rfl
  | special h =>
    unfold ValueType.isSlotted at ht
    unfold coerce
    cases hr : t.representation <;> rw [hr] at ht
    case signal | field | event => exact .pure fun w hw => absurd hw (Option.not_mem_none w)
    all_goals exact absurd ht Bool.false_ne_true
  | signal | field | event => cases hv

/-- Values that fit a type are combined to one that fits it. -/
theorem returns_combine {t : ValueType} (mode : CombineMode) {terms : List ValueRef} (hterms : ∀ v ∈ terms, t.Fits v) :
    (combine t mode terms).Returns fun o => ∀ w ∈ o, t.Fits w := by
  unfold combine
  split
  case h_4 | h_5 => exact (Returns.trivial _).bind fun _ _ => .pure fun w hw => hterms w (List.mem_of_getLast? hw)
  case h_6 => exact .pure fun w hw => absurd hw (Option.not_mem_none w)
  all_goals
    rename_i hr
    refine (Returns.trivial _).bind fun o _ => ?_
    cases o with
    | none => exact .pure fun w hw => absurd hw (Option.not_mem_none w)
    | some ids => exact fun b w hw => .of_mem hr hw rfl

/-- A reduction of values that fit a type fits it. -/
theorem returns_reduce {t : ValueType} (p : CombinePolicy) {terms : List ValueRef} (hterms : ∀ v ∈ terms, t.Fits v) :
    (reduce t p terms).Returns fun o => ∀ w ∈ o, t.Fits w := by
  unfold reduce
  split
  · exact .pure fun w hw => absurd hw (Option.not_mem_none w)
  · exact .pure fun w hw => hterms w (List.mem_of_getLast? hw)
  · exact returns_combine p.mode hterms

/-- All values have a view if each has one. -/
theorem returns_viewAll {view : ValueRef → Build (Option α)} {vs : List ValueRef}
    (hview : ∀ v ∈ vs, (view v).Returns fun o => o.isSome = true) : (viewAll view vs).Returns fun o => o.isSome = true := by
  induction vs with
  | nil => exact .pure rfl
  | cons v rest ih =>
    obtain ⟨hv, hrest⟩ := List.forall_mem_cons.1 hview
    refine hv.bind fun o ho => ?_
    obtain ⟨x, rfl⟩ := Option.isSome_iff_exists.1 ho
    refine (ih hrest).bind fun o ho => ?_
    obtain ⟨xs, rfl⟩ := Option.isSome_iff_exists.1 ho
    exact .pure rfl

/-- What fits a signal can always be seen as one. -/
theorem returns_asSignal {v : ValueRef} (hv : v.fits .signal = true) : (asSignal v).Returns fun o => o.isSome = true := by
  cases v with
  | signal e s => exact .pure rfl
  | _ => exact absurd hv Bool.false_ne_true

/-- What fits a field can always be seen as one. -/
theorem returns_asField {v : ValueRef} (hv : v.fits .field = true) : (asField v).Returns fun o => o.isSome = true := by
  cases v with
  | field e s => exact .pure rfl
  | _ => exact absurd hv Bool.false_ne_true

/-- What fits an event can always be seen as one. -/
theorem returns_asEvent {v : ValueRef} (hv : v.fits .event = true) : (asEvent v).Returns fun o => o.isSome = true := by
  cases v with
  | event e s => exact .pure rfl
  | _ => exact absurd hv Bool.false_ne_true

/-- Values of a type that lives in slots can be combined. -/
theorem returns_combine_isSome {t : ValueType} (ht : t.isSlotted = true) (mode : CombineMode) {terms : List ValueRef}
    (hterms : ∀ v ∈ terms, t.Fits v) : (combine t mode terms).Returns fun o => o.isSome = true := by
  unfold combine
  split
  · rename_i hr
    refine (returns_viewAll fun v hv => returns_asSignal (hr ▸ hterms v hv)).bind fun o ho => ?_
    obtain ⟨ids, rfl⟩ := Option.isSome_iff_exists.1 ho
    exact fun _ => rfl
  · rename_i hr
    refine (returns_viewAll fun v hv => returns_asField (hr ▸ hterms v hv)).bind fun o ho => ?_
    obtain ⟨ids, rfl⟩ := Option.isSome_iff_exists.1 ho
    exact fun _ => rfl
  · rename_i hr
    refine (returns_viewAll fun v hv => returns_asEvent (hr ▸ hterms v hv)).bind fun o ho => ?_
    obtain ⟨ids, rfl⟩ := Option.isSome_iff_exists.1 ho
    exact fun _ => rfl
  all_goals
    rename_i hr
    rw [ValueType.isSlotted, hr] at ht
    exact absurd ht Bool.false_ne_true

/-- Some values of a type that lives in slots reduce to one. -/
theorem returns_reduce_isSome {t : ValueType} (ht : t.isSlotted = true) (p : CombinePolicy) {terms : List ValueRef}
    (hne : terms ≠ []) (hterms : ∀ v ∈ terms, t.Fits v) : (reduce t p terms).Returns fun o => o.isSome = true := by
  unfold reduce
  split
  · rename_i hplan
    have hlen : terms.length ≠ 0 := fun h => hne (List.eq_nil_of_length_eq_zero h)
    unfold CombinePolicy.plan at hplan
    split at hplan
    · contradiction
    · split at hplan <;> cases hplan
  · exact .pure (List.getLast?_isSome.2 hne)
  · exact returns_combine_isSome ht p.mode hterms

end Build

namespace Regime

variable {R : Regime} (L : R.Elementary) {rs : List SlotId} {b : Builder}

/-- A step that makes a value, and one of the form that a type asks for. -/
theorem Builds.typed {m : Build (Option ValueRef)} {t : ValueType} (h : R.Builds rs m b fun o b' => ∀ w ∈ o, R.Raw b' w)
    (ht : m.Returns fun o => ∀ w ∈ o, t.Fits w) : R.Builds rs m b fun o b' => ∀ w ∈ o, R.Typed t b' w :=
  ⟨h.1, h.2.1, fun w hw => ⟨h.2.2 w hw, ht b w hw⟩⟩

include L

/-- A coerced value has the type it is coerced to. -/
theorem typed_coerce (hb : R.Inv rs b) {v : ValueRef} (hv : R.Raw b v) (t : ValueType) :
    R.Builds rs (Build.coerce v t) b fun o b' => ∀ w ∈ o, R.Typed t b' w :=
  (builds_coerce L hb hv t).typed (Build.returns_coerce v t)

/-- A reduction of values of a type has that type. -/
theorem typed_reduce (hb : R.Inv rs b) {t : ValueType} {p : CombinePolicy} (hmode : t.isSlotted = true ∨ t.allows p.mode = true)
    {terms : List ValueRef} (hterms : ∀ v ∈ terms, R.Typed t b v) :
    R.Builds rs (Build.reduce t p terms) b fun o b' => ∀ w ∈ o, R.Typed t b' w :=
  (builds_reduce L hb hmode fun v hv => (hterms v hv).1).typed (Build.returns_reduce p fun v hv => (hterms v hv).2)

end Regime

end PatchGraph
