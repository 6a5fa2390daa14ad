import PatchGraph.Proofs.Program.Bounds

/-!
# Steps that keep to a regime

A regime says what should hold of the builder while a program is made, how the builder may change, and which names may be used in what
is made. A step `Builds` if it keeps to the regime and what it returns satisfies a condition. Such steps compose, so a longer step keeps
to a regime because its parts do: whatever is made by the elementary steps alone needs no proof of its own for a further regime
(`Regime.Elementary`, with states `Regime.Stateful`). A step that may fail keeps to a regime if it does so whether it fails or not, since
what it added before it failed stays in the tables.

A strict regime also asks that every slot holds an expression of the world that its type asks for. All others leave this open.
-/

namespace PatchGraph

/-- A value of the form that a type asks for. -/
def ValueType.Fits (t : ValueType) (v : ValueRef) : Prop := v.fits t.representation = true

/-- The form of a value. -/
def ValueRef.form : ValueRef → Representation
  | .const _ _ => .const
  | .signal _ _ => .signal
  | .field _ _ => .field
  | .event _ _ => .event
  | .special _ => .handle

/-- A value fits a type if it has the form that the type asks for. -/
theorem ValueType.fits_iff {t : ValueType} {v : ValueRef} : t.Fits v ↔ t.representation = v.form := by
  unfold Fits ValueRef.fits
  cases t.representation <;> cases v <;> simp [ValueRef.form]

/-- Whether a source is an expression of the world that a representation asks for. -/
def SlotSource.fits : Representation → SlotSource → Bool
  | .signal, .signal _ | .field, .field _ | .event, .event _ => true
  | _, _ => false

/-- The source of a value has the form of the value. -/
theorem ValueRef.fits_source {v : ValueRef} {source : SlotSource} (h : v.source? = some source) (form : Representation) :
    source.fits form = v.fits form := by
  cases v with
  | const | special => cases h
  | signal | field | event =>
    obtain rfl := Option.some.inj h
    cases form <;> rfl

/-- A value that is an expression lives in a slot. -/
theorem ValueRef.exists_slot {v : ValueRef} {source : SlotSource} (h : v.source? = some source) : ∃ s, v.slot? = some s := by
  cases v with
  | const | special => cases h
  | signal | field | event => exact ⟨_, rfl⟩

/-- A value in a slot has the form that the type of its slot asks for. -/
def Builder.Suits (b : Builder) (v : ValueRef) : Prop := ∀ s, v.slot? = some s → ∃ t, b.slotType? s = some t ∧ t.Fits v

/-- A source is registered under a slot of its type. -/
theorem Build.slotType?_slotFor (b : Builder) (t : ValueType) (source : SlotSource) :
    ((Build.slotFor t source).run b).2.slotType? ((Build.slotFor t source).run b).1 = some t := by
  show ((b.slots.push ⟨t, source⟩)[b.slots.size]?).map (·.type) = some t
  simp

/-- A reserved slot has the type it is reserved for. -/
theorem Build.slotType?_reserve (b : Builder) (t : ValueType) :
    ((Build.reserve t).run b).2.slotType? ⟨b.slots.size⟩ = some t := by
  show ((b.slots.push ⟨t, .unbound⟩)[b.slots.size]?).map (·.type) = some t
  simp

/-- An assertion changes nothing but the breaches. -/
theorem Build.run_assert (holds : Bool) (x : Breach) (b : Builder) : ∃ xs, (Build.assert holds x).run b = ((), { b with breaches := xs }) := by
  cases holds with
  | true => exact ⟨b.breaches, rfl⟩
  | false => exact ⟨b.breaches ++ [x], rfl⟩

/-- What should hold while the program of a patch is emitted. -/
structure Regime where
  /-- What holds of the builder as long as some slots are reserved. -/
  Inv : List SlotId → Builder → Prop
  /-- How the builder may change. -/
  Le : Builder → Builder → Prop
  /-- What holds of every name in what is made. -/
  Usable : Builder → Name → Prop
  /-- What holds of every slot that was given a source. -/
  Bound : SlotId → Builder → Prop
  /-- Whether slots have to hold what their types ask for. -/
  Strict : Prop := False
  /-- Whether slots keep their types. -/
  Steady : Prop := Strict

namespace Regime

variable {α β ε : Type} (R : Regime)

/-- A value whose names may be used, and which suits its slot if the regime is strict. -/
def Raw (b : Builder) (v : ValueRef) : Prop := (∀ x ∈ v.names, R.Usable b x) ∧ (R.Strict → b.Suits v)

/-- A value that was taken to a type. -/
def Typed (t : ValueType) (b : Builder) (v : ValueRef) : Prop := R.Raw b v ∧ t.Fits v

/-- A value for an output of a type: in a strict regime it has the form that the type asks for. -/
def Apt (t : ValueType) (b : Builder) (v : ValueRef) : Prop := R.Raw b v ∧ (R.Strict → t.Fits v)

/-- A table of values whose names may be used. -/
def RawAll (b : Builder) (d : Dict ValueRef) : Prop := ∀ v ∈ d.values, R.Raw b v

/-- A step of building keeps to the regime, and what it returns satisfies a condition afterwards. -/
def Builds (reserved : List SlotId) (step : Build α) (b : Builder) (Q : α → Builder → Prop) : Prop :=
  R.Inv reserved (step.run b).2 ∧ R.Le b (step.run b).2 ∧ Q (step.run b).1 (step.run b).2

/-- The elementary steps of building keep to a regime. An expression that reads a slot is none of them: a slot is read where it is
reserved. Neither is one that has a state, which `Stateful` adds. -/
structure Elementary : Prop where
  refl : ∀ b, R.Le b b
  trans : ∀ {b b' b''}, R.Le b b' → R.Le b' b'' → R.Le b b''
  mono : ∀ {b b' x}, R.Le b b' → R.Usable b x → R.Usable b' x
  steady : R.Strict → R.Steady
  slotType : R.Steady → ∀ {b b' s t}, R.Le b b' → b.slotType? s = some t → b'.slotType? s = some t
  intern : ∀ {rs b} (v : Value), R.Inv rs b → R.Builds rs (Build.intern v) b fun c b' => R.Usable b' (.const c)
  signal : ∀ {rs b} {e : SignalExpr}, R.Inv rs b → e.slot? = none → e.state? = none → (∀ x ∈ e.names, R.Usable b x) →
    R.Builds rs (Build.signal e) b fun x b' => R.Usable b' (.signal x)
  field : ∀ {rs b} {e : FieldExpr}, R.Inv rs b → e.slot? = none → (∀ x ∈ e.names, R.Usable b x) →
    R.Builds rs (Build.field e) b fun x b' => R.Usable b' (.field x)
  event : ∀ {rs b} {e : EventExpr}, R.Inv rs b → e.slot? = none → (∀ x ∈ e.names, R.Usable b x) →
    R.Builds rs (Build.event e) b fun x b' => R.Usable b' (.event x)
  slotFor : ∀ {rs b} {source : SlotSource} {t : ValueType}, R.Inv rs b → source ≠ .unbound →
    (R.Strict → source.fits t.representation = true) → (∀ x ∈ source.names, R.Usable b x) →
    R.Builds rs (Build.slotFor t source) b fun s b' => R.Usable b' (.slot s)
  handle : ∀ {rs b} (owner kind), R.Inv rs b → R.Builds rs (Build.handle owner kind) b fun h b' => R.Usable b' (.handle h)
  renderSink : ∀ {rs b} {s : Sink}, R.Inv rs b → R.Usable b (.handle s.handle) → R.RawAll b s.inputs →
    R.Builds rs (Build.renderSink s) b fun _ _ => True
  camera : ∀ {rs b} {s : Sink}, R.Inv rs b → R.Usable b (.handle s.handle) → R.RawAll b s.inputs →
    R.Builds rs (Build.camera s) b fun _ _ => True
  assert : ∀ {rs b} {t : ValueType} {mode : CombineMode}, R.Inv rs b → t.allows mode = true →
    t.representation = .const ∨ t.representation = .handle → R.Builds rs (Build.assert (Build.picks mode) ⟨t, mode⟩) b fun _ _ => True

/-- Steps that make states, and expressions that have one, keep to a regime as well. -/
structure Stateful : Prop extends R.Elementary where
  state : ∀ {rs b} (owner init), R.Inv rs b → R.Builds rs (Build.state owner init) b fun s b' => R.Usable b' (.state s)
  stateSignal : ∀ {rs b} {e : SignalExpr} {s : StateId}, R.Inv rs b → e.state? = some s → (∀ x ∈ e.names, R.Usable b x) →
    R.Builds rs (Build.signal e) b fun x b' => R.Usable b' (.signal x)

/-- A step that may fail with an error keeps to the regime, and what it returns if it does not fail satisfies a condition. -/
def BuildsExcept (reserved : List SlotId) (m : ExceptT ε Build α) (b : Builder) (Q : α → Builder → Prop) : Prop :=
  R.Builds reserved m.run b fun r b' => ∀ a, r = .ok a → Q a b'

/-- A step that may fail without a word keeps to the regime, and what it returns if it does not fail satisfies a condition. -/
def BuildsOption (reserved : List SlotId) (m : OptionT Build α) (b : Builder) (Q : α → Builder → Prop) : Prop :=
  R.Builds reserved m.run b fun o b' => ∀ a ∈ o, Q a b'

variable {R} {rs : List SlotId} {b b' : Builder}

/-! ## Values -/

/-- A constant is usable if its name is. -/
theorem raw_const {c : ConstId} {t : ValueType} : R.Raw b (.const c t) ↔ R.Usable b (.const c) := by
  simp [Raw, ValueRef.names, Builder.Suits, ValueRef.slot?]

/-- A signal is usable if its expression and its slot are, and if a strict regime finds it in a slot that it fits. -/
theorem raw_signal {e : SignalId} {s : SlotId} :
    R.Raw b (.signal e s) ↔
      R.Usable b (.signal e) ∧ R.Usable b (.slot s) ∧ (R.Strict → ∃ t, b.slotType? s = some t ∧ t.Fits (.signal e s)) := by
  simp [Raw, ValueRef.names, Builder.Suits, ValueRef.slot?, and_assoc]

/-- So is a field. -/
theorem raw_field {e : FieldId} {s : SlotId} :
    R.Raw b (.field e s) ↔
      R.Usable b (.field e) ∧ R.Usable b (.slot s) ∧ (R.Strict → ∃ t, b.slotType? s = some t ∧ t.Fits (.field e s)) := by
  simp [Raw, ValueRef.names, Builder.Suits, ValueRef.slot?, and_assoc]

/-- So is an event. -/
theorem raw_event {e : EventId} {s : SlotId} :
    R.Raw b (.event e s) ↔
      R.Usable b (.event e) ∧ R.Usable b (.slot s) ∧ (R.Strict → ∃ t, b.slotType? s = some t ∧ t.Fits (.event e s)) := by
  simp [Raw, ValueRef.names, Builder.Suits, ValueRef.slot?, and_assoc]

/-- A handle is usable if its name is. -/
theorem raw_special {h : HandleRef} : R.Raw b (.special h) ↔ R.Usable b (.handle h.id) := by
  simp [Raw, ValueRef.names, Builder.Suits, ValueRef.slot?]

/-- In a strict regime the type of a value asks for the form that it has. -/
theorem Raw.representation_eq {v : ValueRef} {s : SlotId} {t : ValueType} (hv : R.Raw b v) (hs : v.slot? = some s)
    (ht : b.typeOf? v = some t) (hstrict : R.Strict) : t.representation = v.form := by
  obtain ⟨u, hu, hfits⟩ := hv.2 hstrict s hs
  have hsame : b.typeOf? v = b.slotType? s := by
    cases v with
    | const | special => cases hs
    | signal | field | event =>
      obtain rfl := Option.some.inj hs
      rfl
  rw [hsame, hu] at ht
  obtain rfl := Option.some.inj ht
  exact ValueType.fits_iff.1 hfits

/-- A value of a type is apt for it. -/
theorem Typed.apt {t : ValueType} {v : ValueRef} (hv : R.Typed t b v) : R.Apt t b v := ⟨hv.1, fun _ => hv.2⟩

theorem RawAll.empty (b : Builder) : R.RawAll b {} := fun _ h => absurd h List.not_mem_nil

/-- One more usable value. -/
theorem RawAll.insert {d : Dict ValueRef} {v : ValueRef} (h : R.RawAll b d) (name : String) (hv : R.Raw b v) :
    R.RawAll b (d.insert name v) := by
  intro w hw
  rcases Dict.mem_values_insert hw with rfl | hw
  · exact hv
  · exact h w hw

/-- What is found in a table of usable values is usable. -/
theorem RawAll.get {d : Dict ValueRef} {name : String} {v : ValueRef} (h : R.RawAll b d) (hv : d.get? name = some v) : R.Raw b v :=
  h v (Dict.mem_values_of_get? hv)

/-! ## Composing steps -/

/-- What a step is known to do holds besides. -/
theorem Builds.and {m : Build α} {P Q : α → Builder → Prop} (h : R.Builds rs m b Q) (hp : P (m.run b).1 (m.run b).2) :
    R.Builds rs m b fun a b' => Q a b' ∧ P a b' :=
  ⟨h.1, h.2.1, h.2.2, hp⟩

/-- An assertion keeps to a regime that does not look at breaches. -/
theorem builds_assert {holds : Bool} {x : Breach} (h : ∀ xs, R.Inv rs { b with breaches := xs } ∧ R.Le b { b with breaches := xs }) :
    R.Builds rs (Build.assert holds x) b fun _ _ => True := by
  obtain ⟨xs, hrun⟩ := Build.run_assert holds x b
  obtain ⟨hinv, hle⟩ := h xs
  unfold Builds
  rw [hrun]
  exact ⟨hinv, hle, trivial⟩

/-- To look at the builder changes nothing. -/
theorem Builds.get_bind {f : Builder → Build α} {Q : α → Builder → Prop} (h : R.Builds rs (f b) b Q) : R.Builds rs (get >>= f) b Q :=
  h

/-- The same for a step that may fail. -/
theorem BuildsExcept.get_bind {f : Builder → ExceptT ε Build α} {Q : α → Builder → Prop} (h : R.BuildsExcept rs (f b) b Q) :
    R.BuildsExcept rs (get >>= f) b Q :=
  h

variable (L : R.Elementary) {P : α → Builder → Prop} {Q : β → Builder → Prop}

include L

/-- Usable values stay usable when more is built. -/
theorem Elementary.raw_mono {v : ValueRef} (h : R.Le b b') (hv : R.Raw b v) : R.Raw b' v := by
  refine ⟨fun x hx => L.mono h (hv.1 x hx), fun hstrict s hs => ?_⟩
  obtain ⟨t, ht, hfits⟩ := hv.2 hstrict s hs
  exact ⟨t, L.slotType (L.steady hstrict) h ht, hfits⟩

/-- Values keep their types when more is built. -/
theorem Elementary.typed_mono {t : ValueType} {v : ValueRef} (h : R.Le b b') (hv : R.Typed t b v) : R.Typed t b' v :=
  ⟨L.raw_mono h hv.1, hv.2⟩

/-- Tables of usable values stay so when more is built. -/
theorem Elementary.rawAll_mono {d : Dict ValueRef} (h : R.Le b b') (hd : R.RawAll b d) : R.RawAll b' d :=
  fun v hv => L.raw_mono h (hd v hv)

/-- To build nothing keeps to every regime. -/
theorem Builds.pure {a : α} (hb : R.Inv rs b) (h : P a b) : R.Builds rs (pure a) b P := ⟨hb, L.refl b, h⟩

/-- Without a result nothing is promised. -/
theorem Builds.pure_none (hb : R.Inv rs b) : R.Builds rs (Pure.pure none) b fun o b' => ∀ a ∈ o, P a b' :=
  Builds.pure L hb fun a h => absurd h (Option.not_mem_none a)

theorem Builds.pure_some {a : α} (hb : R.Inv rs b) (h : P a b) : R.Builds rs (Pure.pure (some a)) b fun o b' => ∀ a ∈ o, P a b' :=
  Builds.pure L hb fun _ ha => Option.mem_some.1 ha ▸ h

/-- Steps that keep to the regime compose. -/
theorem Builds.bind {m : Build α} {f : α → Build β} (h : R.Builds rs m b P)
    (hf : ∀ a b', R.Inv rs b' → R.Le b b' → P a b' → R.Builds rs (f a) b' Q) : R.Builds rs (m >>= f) b Q := by
  obtain ⟨hinv, hle, hq⟩ := hf _ _ h.1 h.2.1 h.2.2
  exact ⟨hinv, L.trans h.2.1 hle, hq⟩

theorem BuildsExcept.pure {a : α} (hb : R.Inv rs b) (h : P a b) : R.BuildsExcept rs (Pure.pure a : ExceptT ε Build α) b P :=
  Builds.pure L hb fun _ hr => Except.ok.inj hr ▸ h

/-- To fail keeps to every regime. -/
theorem BuildsExcept.throw {e : ε} (hb : R.Inv rs b) : R.BuildsExcept rs (throw e : ExceptT ε Build α) b P :=
  Builds.pure L hb nofun

/-- A step that never fails is a step that may fail. -/
theorem BuildsExcept.lift {m : Build α} (h : R.Builds rs m b P) : R.BuildsExcept rs (liftM m : ExceptT ε Build α) b P :=
  Builds.bind L h fun _ _ hb _ ha => BuildsExcept.pure L hb ha

/-- Steps that may fail compose: if the first fails, what it built stays. -/
theorem BuildsExcept.bind {m : ExceptT ε Build α} {f : α → ExceptT ε Build β} (h : R.BuildsExcept rs m b P)
    (hf : ∀ a b', R.Inv rs b' → R.Le b b' → P a b' → R.BuildsExcept rs (f a) b' Q) : R.BuildsExcept rs (m >>= f) b Q := by
  rw [BuildsExcept, ExceptT.run_bind]
  refine Builds.bind L h fun r b' hb' hle hr => ?_
  cases r with
  | ok a => exact hf a b' hb' hle (hr a rfl)
  | error e => exact BuildsExcept.throw L hb'

theorem BuildsOption.pure {a : α} (hb : R.Inv rs b) (h : P a b) : R.BuildsOption rs (Pure.pure a) b P := Builds.pure_some L hb h

/-- To have no result keeps to every regime. -/
theorem BuildsOption.failure (hb : R.Inv rs b) : R.BuildsOption rs (failure : OptionT Build α) b P := Builds.pure_none L hb

/-- A step that always has a result is a step that may have none. -/
theorem BuildsOption.lift {m : Build α} (h : R.Builds rs m b P) : R.BuildsOption rs (liftM m) b P :=
  Builds.bind L h fun _ _ hb _ ha => BuildsOption.pure L hb ha

/-- Steps that may have no result compose: if the first has none, what it built stays. -/
theorem BuildsOption.bind {m : OptionT Build α} {f : α → OptionT Build β} (h : R.BuildsOption rs m b P)
    (hf : ∀ a b', R.Inv rs b' → R.Le b b' → P a b' → R.BuildsOption rs (f a) b' Q) : R.BuildsOption rs (m >>= f) b Q := by
  rw [BuildsOption, OptionT.run_bind]
  refine Builds.bind L h fun o b' hb' hle ho => ?_
  cases o with
  | none => exact BuildsOption.failure L hb'
  | some a => exact hf a b' hb' hle (ho a rfl)

end Regime

end PatchGraph
