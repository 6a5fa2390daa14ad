import PatchGraph.Proofs.Program.Bounds

/-!
# Growing tables

A step of building is `Safe` if it keeps all names in bounds (`Builder.Sound`), adds to the tables without changing what is there, and
opens no slot (`Builder.Grows`). Each elementary step is safe as long as the names it is given are in bounds. Reserving a slot is the one
step that is not of this kind.
-/

namespace PatchGraph

/-- What stands in a list stands at the same place in every longer list that starts with it. -/
theorem getElem?_of_prefix {α : Type} {xs ys : List α} (h : xs <+: ys) {i : Nat} {x : α} (hx : xs[i]? = some x) :
    ys[i]? = some x := by
  obtain ⟨hlt, rfl⟩ := List.getElem?_eq_some_iff.1 hx
  exact List.prefix_iff_getElem?.1 h i hlt

namespace Builder

/-- A slot without a source. -/
def Open (b : Builder) (s : SlotId) : Prop := ∃ slot, b.slots[s.index]? = some slot ∧ slot.source = .unbound

/-- Tables only grew: every entry is where it was. A slot keeps its type, and one that has a source keeps having one. -/
structure Extends (b b' : Builder) : Prop where
  consts : b.consts.values.toList <+: b'.consts.values.toList
  signals : b.signals.toList <+: b'.signals.toList
  fields : b.fields.toList <+: b'.fields.toList
  events : b.events.toList <+: b'.events.toList
  slotTypes : b.slots.toList.map (·.type) <+: b'.slots.toList.map (·.type)
  states : b.states.toList <+: b'.states.toList
  handles : b.handles.toList <+: b'.handles.toList
  renderSinks : b.renderSinks.toList <+: b'.renderSinks.toList
  cameras : b.cameras.toList <+: b'.cameras.toList
  schedule : b.schedule.toList <+: b'.schedule.toList
  isOpen : ∀ s : SlotId, s.index < b.slots.size → b'.Open s → b.Open s

/-- Tables only grew, and the slots that were added have a source. -/
structure Grows (b b' : Builder) : Prop extends Extends b b' where
  noneOpened : ∀ s, b'.Open s → b.Open s

theorem Extends.refl (b : Builder) : b.Extends b := by
  constructor
  case isOpen => exact fun _ _ h => h
  all_goals exact List.prefix_refl _

/-- Slots are never given up. -/
theorem Extends.size_slots_le {b b' : Builder} (h : b.Extends b') : b.slots.size ≤ b'.slots.size := by
  simpa using h.slotTypes.length_le

/-- To extend twice is to extend. -/
theorem Extends.trans {b b' b'' : Builder} (h : b.Extends b') (h' : b'.Extends b'') : b.Extends b'' where
  consts := h.consts.trans h'.consts
  signals := h.signals.trans h'.signals
  fields := h.fields.trans h'.fields
  events := h.events.trans h'.events
  slotTypes := h.slotTypes.trans h'.slotTypes
  states := h.states.trans h'.states
  handles := h.handles.trans h'.handles
  renderSinks := h.renderSinks.trans h'.renderSinks
  cameras := h.cameras.trans h'.cameras
  schedule := h.schedule.trans h'.schedule
  isOpen s hs hopen := h.isOpen s hs (h'.isOpen s (Nat.lt_of_lt_of_le hs h.size_slots_le) hopen)

/-- A slot keeps its type. -/
theorem Extends.slotType? {b b' : Builder} (h : b.Extends b') {s : SlotId} {t : ValueType} (ht : b.slotType? s = some t) :
    b'.slotType? s = some t := by
  have hlist : ∀ b : Builder, b.slotType? s = (b.slots.toList.map (·.type))[s.index]? := fun b => by
    rw [List.getElem?_map, Array.getElem?_toList]
    rfl
  rw [hlist] at ht ⊢
  exact getElem?_of_prefix h.slotTypes ht

theorem Grows.refl (b : Builder) : b.Grows b := ⟨.refl b, fun _ h => h⟩

/-- To grow twice is to grow. -/
theorem Grows.trans {b b' b'' : Builder} (h : b.Grows b') (h' : b'.Grows b'') : b.Grows b'' :=
  ⟨h.toExtends.trans h'.toExtends, fun s hs => h.noneOpened s (h'.noneOpened s hs)⟩

/-- Names of a builder that grew are names. -/
theorem Extends.within {b b' : Builder} (h : b.Extends b') : b.finish.Within b'.finish where
  consts := h.consts.length_le
  signals := h.signals.length_le
  fields := h.fields.length_le
  events := h.events.length_le
  slots := h.size_slots_le
  states := h.states.length_le
  handles := h.handles.length_le

/-- All names in the tables are names of something, and operands come before the expressions made of them. -/
structure Sound (b : Builder) : Prop where
  signals : ∀ (i : Nat) (e : SignalExpr), b.signals.toList[i]? = some e →
    b.finish.signalInBounds e = true ∧ ∀ x ∈ e.operands, x.index < i
  fields : ∀ (i : Nat) (e : FieldExpr), b.fields.toList[i]? = some e →
    b.finish.fieldInBounds e = true ∧ ∀ x ∈ e.operands, x.index < i
  events : ∀ (i : Nat) (e : EventExpr), b.events.toList[i]? = some e →
    b.finish.eventInBounds e = true ∧ ∀ x ∈ e.operands, x.index < i
  slots : ∀ s ∈ b.slots.toList, b.finish.sourceInBounds s.source = true
  states : ∀ s ∈ b.states.toList, s.init.index < b.finish.consts.length
  renderSinks : ∀ s ∈ b.renderSinks.toList, b.finish.sinkInBounds s = true
  cameras : ∀ s ∈ b.cameras.toList, b.finish.sinkInBounds s = true

/-- What is finished by a sound builder is in bounds. -/
theorem Sound.inBounds {b : Builder} (h : b.Sound) : b.finish.inBounds = true := by
  simp only [Program.inBounds, Bool.and_eq_true, List.all_eq_true, List.mem_append, decide_eq_true_eq]
  refine ⟨⟨⟨⟨⟨fun e he => ?_, fun e he => ?_⟩, fun e he => ?_⟩, h.slots⟩, h.states⟩,
    fun s hs => hs.elim (h.renderSinks s) (h.cameras s)⟩
  · obtain ⟨i, hi⟩ := List.getElem?_of_mem he
    exact (h.signals i e hi).1
  · obtain ⟨i, hi⟩ := List.getElem?_of_mem he
    exact (h.fields i e hi).1
  · obtain ⟨i, hi⟩ := List.getElem?_of_mem he
    exact (h.events i e hi).1

/-- What is finished by a sound builder refers backward only. -/
theorem Sound.backward {b : Builder} (h : b.Sound) : b.finish.Backward :=
  ⟨fun i e he => (h.signals i e he).2, fun i e he => (h.fields i e he).2, fun i e he => (h.events i e he).2⟩

/-- What one builder has more than another is in bounds in the other. -/
structure Added (b b' : Builder) : Prop where
  signals : ∀ (i : Nat) (e : SignalExpr), b'.signals.toList[i]? = some e →
    b.signals.toList[i]? = some e ∨ b.finish.signalInBounds e = true ∧ ∀ x ∈ e.operands, x.index < i
  fields : ∀ (i : Nat) (e : FieldExpr), b'.fields.toList[i]? = some e →
    b.fields.toList[i]? = some e ∨ b.finish.fieldInBounds e = true ∧ ∀ x ∈ e.operands, x.index < i
  events : ∀ (i : Nat) (e : EventExpr), b'.events.toList[i]? = some e →
    b.events.toList[i]? = some e ∨ b.finish.eventInBounds e = true ∧ ∀ x ∈ e.operands, x.index < i
  slots : ∀ s ∈ b'.slots.toList, s ∈ b.slots.toList ∨ b.finish.sourceInBounds s.source = true
  states : ∀ s ∈ b'.states.toList, s ∈ b.states.toList ∨ s.init.index < b.finish.consts.length
  renderSinks : ∀ s ∈ b'.renderSinks.toList, s ∈ b.renderSinks.toList ∨ b.finish.sinkInBounds s = true
  cameras : ∀ s ∈ b'.cameras.toList, s ∈ b.cameras.toList ∨ b.finish.sinkInBounds s = true

theorem Added.refl (b : Builder) : Added b b where
  signals _ _ := Or.inl
  fields _ _ := Or.inl
  events _ _ := Or.inl
  slots _ := Or.inl
  states _ := Or.inl
  renderSinks _ := Or.inl
  cameras _ := Or.inl

/-- What was sound stays sound in longer tables if what was added is in bounds. -/
theorem Sound.grow {b b' : Builder} (h : b.Sound) (hb : b.Extends b') (hadd : Added b b') : b'.Sound where
  signals i e he := ((hadd.signals i e he).elim (h.signals i e) id).imp_left hb.within.signal
  fields i e he := ((hadd.fields i e he).elim (h.fields i e) id).imp_left hb.within.field
  events i e he := ((hadd.events i e he).elim (h.events i e) id).imp_left hb.within.event
  slots s hs := hb.within.source ((hadd.slots s hs).elim (h.slots s) id)
  states s hs := Nat.lt_of_lt_of_le ((hadd.states s hs).elim (h.states s) id) hb.within.consts
  renderSinks s hs := hb.within.sink ((hadd.renderSinks s hs).elim (h.renderSinks s) id)
  cameras s hs := hb.within.sink ((hadd.cameras s hs).elim (h.cameras s) id)

end Builder

/-! ## Safe steps -/

namespace Build

variable {α : Type}

/-- A step keeps a builder sound, only adds to it and opens no slot, and what it returns satisfies a condition afterwards. -/
def Safe (m : Build α) (b : Builder) (Q : α → Builder → Prop) : Prop :=
  (m.run b).2.Sound ∧ b.Grows (m.run b).2 ∧ Q (m.run b).1 (m.run b).2

/-- A member of a table with a new entry is an old one or the new one. -/
theorem mem_toList_push {γ : Type} {xs : Array γ} {x y : γ} (h : y ∈ (xs.push x).toList) : y ∈ xs.toList ∨ y = x := by
  simpa [Array.toList_push] using h

/-- An entry of a table with a new one is an old entry or stands at the end. -/
theorem getElem?_toList_push {γ : Type} {xs : Array γ} {x y : γ} {i : Nat} (h : (xs.push x).toList[i]? = some y) :
    xs.toList[i]? = some y ∨ i = xs.size ∧ y = x := by
  rw [Array.getElem?_toList, Array.getElem?_push] at h
  split at h
  · exact Or.inr ⟨‹_›, (Option.some.inj h).symm⟩
  · exact Or.inl (by rwa [Array.getElem?_toList])

/-- A table starts with what it was before a new entry. -/
theorem prefix_push {γ : Type} (xs : Array γ) (x : γ) : xs.toList <+: (xs.push x).toList := by
  rw [Array.toList_push]
  exact List.prefix_append _ _

/-- The constant of a value is one of the pool's, which only grew. -/
theorem prefix_intern (p : Pool) (v : Value) :
    p.values.toList <+: (p.intern v).2.values.toList ∧ (p.intern v).1.index < (p.intern v).2.values.toList.length := by
  obtain ⟨c, hc, heq⟩ | ⟨hnew, heq⟩ := p.intern_cases v
  · obtain ⟨w, hw, -⟩ := Option.map_eq_some_iff.1 hc
    rw [heq]
    exact ⟨List.prefix_refl _, (Array.getElem?_eq_some_iff.1 hw).1⟩
  · rw [heq]
    exact ⟨prefix_push _ _, by simp [Pool.add]⟩

/-- A constant that is interned is added at the end, if at all. -/
theorem extends_intern (b : Builder) (v : Value) : b.Extends { b with consts := (b.consts.intern v).2 } :=
  { Builder.Extends.refl b with consts := (prefix_intern b.consts v).1 }

/-- To intern a constant is safe, and gives the name of a constant. -/
theorem safe_intern {b : Builder} (hb : b.Sound) (v : Value) : (intern v).Safe b fun c b' => b'.finish.Has (.const c) := by
  have hext := extends_intern b v
  exact ⟨hb.grow hext { Builder.Added.refl b with }, ⟨hext, fun _ h => h⟩, (prefix_intern b.consts v).2⟩

/-! ### Expressions -/

section Expressions

variable {b : Builder} (hb : b.Sound)

/-- A signal is added at the end. -/
theorem extends_pushSignal (b : Builder) (e : SignalExpr) : b.Extends { b with signals := b.signals.push e } :=
  { Builder.Extends.refl b with signals := prefix_push _ _ }

/-- A field is added at the end. -/
theorem extends_pushField (b : Builder) (e : FieldExpr) : b.Extends { b with fields := b.fields.push e } :=
  { Builder.Extends.refl b with fields := prefix_push _ _ }

/-- An event is added at the end. -/
theorem extends_pushEvent (b : Builder) (e : EventExpr) : b.Extends { b with events := b.events.push e } :=
  { Builder.Extends.refl b with events := prefix_push _ _ }

include hb

/-- A signal with names in bounds keeps a builder sound. -/
theorem sound_pushSignal {e : SignalExpr} (he : ∀ x ∈ e.names, b.finish.Has x) :
    Builder.Sound { b with signals := b.signals.push e } := by
  have he := Program.signalInBounds_iff.2 he
  refine hb.grow (extends_pushSignal b e)
    { Builder.Added.refl b with signals := fun i x hx => (getElem?_toList_push hx).imp_right ?_ }
  rintro ⟨rfl, rfl⟩
  exact ⟨he, Program.lt_of_mem_signal_operands he⟩

/-- A field with names in bounds keeps a builder sound. -/
theorem sound_pushField {e : FieldExpr} (he : ∀ x ∈ e.names, b.finish.Has x) :
    Builder.Sound { b with fields := b.fields.push e } := by
  have he := Program.fieldInBounds_iff.2 he
  refine hb.grow (extends_pushField b e)
    { Builder.Added.refl b with fields := fun i x hx => (getElem?_toList_push hx).imp_right ?_ }
  rintro ⟨rfl, rfl⟩
  exact ⟨he, Program.lt_of_mem_field_operands he⟩

/-- An event with names in bounds keeps a builder sound. -/
theorem sound_pushEvent {e : EventExpr} (he : ∀ x ∈ e.names, b.finish.Has x) :
    Builder.Sound { b with events := b.events.push e } := by
  have he := Program.eventInBounds_iff.2 he
  refine hb.grow (extends_pushEvent b e)
    { Builder.Added.refl b with events := fun i x hx => (getElem?_toList_push hx).imp_right ?_ }
  rintro ⟨rfl, rfl⟩
  exact ⟨he, Program.lt_of_mem_event_operands he⟩

/-- To add a signal with names in bounds is safe, and gives the name of a signal. -/
theorem safe_signal {e : SignalExpr} (he : ∀ x ∈ e.names, b.finish.Has x) : (signal e).Safe b fun x b' => b'.finish.Has (.signal x) := by
  refine ⟨sound_pushSignal hb he, ⟨extends_pushSignal b e, fun _ h => h⟩, ?_⟩
  show b.signals.size < (b.signals.push e).toList.length
  simp

/-- To add a field with names in bounds is safe, and gives the name of a field. -/
theorem safe_field {e : FieldExpr} (he : ∀ x ∈ e.names, b.finish.Has x) : (field e).Safe b fun x b' => b'.finish.Has (.field x) := by
  refine ⟨sound_pushField hb he, ⟨extends_pushField b e, fun _ h => h⟩, ?_⟩
  show b.fields.size < (b.fields.push e).toList.length
  simp

/-- To add an event with names in bounds is safe, and gives the name of an event. -/
theorem safe_event {e : EventExpr} (he : ∀ x ∈ e.names, b.finish.Has x) : (event e).Safe b fun x b' => b'.finish.Has (.event x) := by
  refine ⟨sound_pushEvent hb he, ⟨extends_pushEvent b e, fun _ h => h⟩, ?_⟩
  show b.events.size < (b.events.push e).toList.length
  simp

end Expressions

/-! ### Slots -/

/-- The open slots after a slot was added. -/
theorem open_pushSlot {b : Builder} {slot : Slot} {s : SlotId} (h : Builder.Open { b with slots := b.slots.push slot } s) :
    b.Open s ∨ s.index = b.slots.size ∧ slot.source = .unbound := by
  obtain ⟨found, hfound, hopen⟩ := h
  change (b.slots.push slot)[s.index]? = some found at hfound
  rw [Array.getElem?_push] at hfound
  split at hfound
  · obtain rfl := Option.some.inj hfound
    exact Or.inr ⟨‹_›, hopen⟩
  · exact Or.inl ⟨found, hfound, hopen⟩

/-- A slot is added at the end. -/
theorem extends_pushSlot (b : Builder) (slot : Slot) : b.Extends { b with slots := b.slots.push slot } :=
  { Builder.Extends.refl b with
    slotTypes := by
      rw [Array.toList_push, List.map_append]
      exact List.prefix_append _ _
    isOpen := fun s hs hopen => (open_pushSlot hopen).resolve_right fun h => Nat.ne_of_lt hs h.1 }

/-- A slot with a source in bounds keeps a builder sound. -/
theorem sound_pushSlot {b : Builder} (hb : b.Sound) {slot : Slot} (hs : ∀ x ∈ slot.source.names, b.finish.Has x) :
    Builder.Sound { b with slots := b.slots.push slot } := by
  have hs := Program.sourceInBounds_iff.2 hs
  refine hb.grow (extends_pushSlot b slot) { Builder.Added.refl b with slots := fun x hx => (mem_toList_push hx).imp_right ?_ }
  rintro rfl
  exact hs

/-- To register a source under a slot is safe, since the slot is bound from the start. -/
theorem safe_slotFor {b : Builder} (hb : b.Sound) (t : ValueType) {source : SlotSource}
    (hne : source ≠ .unbound) (hs : ∀ x ∈ source.names, b.finish.Has x) :
    (slotFor t source).Safe b fun s b' => b'.finish.Has (.slot s) := by
  refine ⟨sound_pushSlot hb hs, ⟨extends_pushSlot b _, fun s h => (open_pushSlot h).resolve_right fun h => hne h.2⟩, ?_⟩
  show b.slots.size < (b.slots.push ⟨t, source⟩).toList.length
  simp

/-- Binding changes the source of the one slot that is named, if it is there. -/
theorem run_bind (b : Builder) (s : SlotId) (source : SlotSource) :
    (Build.bind s source).run b = match b.slots[s.index]? with
      | some slot => (true, { b with slots := b.slots.setIfInBounds s.index { slot with source } })
      | none => (false, b) :=
  rfl

/-- The open slots after a slot was given a source. -/
theorem open_setSlot {b : Builder} {slot : Slot} {i : Nat} {s : SlotId} (hne : slot.source ≠ .unbound)
    (h : Builder.Open { b with slots := b.slots.setIfInBounds i slot } s) : b.Open s ∧ s.index ≠ i := by
  obtain ⟨found, hfound, hopen⟩ := h
  change (b.slots.setIfInBounds i slot)[s.index]? = some found at hfound
  rw [Array.getElem?_setIfInBounds] at hfound
  split at hfound
  · split at hfound
    · obtain rfl := Option.some.inj hfound
      exact absurd hopen hne
    · cases hfound
  · exact ⟨⟨found, hfound, hopen⟩, Ne.symm ‹_›⟩

/-- A slot that is given a source keeps its type. -/
theorem map_type_set {slots : Array Slot} {i : Nat} {slot : Slot} (source : SlotSource) (h : slots[i]? = some slot) :
    (slots.setIfInBounds i { slot with source }).toList.map (·.type) = slots.toList.map (·.type) := by
  have htype : (slots.toList.map (·.type))[i]? = some slot.type := by rw [List.getElem?_map, Array.getElem?_toList, h]; rfl
  rw [Array.toList_setIfInBounds, List.map_set]
  obtain ⟨_, hget⟩ := List.getElem?_eq_some_iff.1 htype
  exact hget ▸ List.set_getElem_self _

/-- Giving a slot a source only closes it. -/
theorem extends_bind (b : Builder) (s : SlotId) {source : SlotSource} (hne : source ≠ .unbound) :
    b.Extends ((Build.bind s source).run b).2 := by
  rw [run_bind]
  cases hslot : b.slots[s.index]? with
  | none => exact .refl b
  | some slot =>
    exact { Builder.Extends.refl b with
      slotTypes := map_type_set source hslot ▸ List.prefix_refl _
      isOpen := fun x _ h => (open_setSlot hne h).1 }

/-- Binding a slot gives it a source for good and touches no other slot. -/
theorem safe_bind {b : Builder} (hb : b.Sound) {s : SlotId} {source : SlotSource} (hne : source ≠ .unbound)
    (hs : ∀ x ∈ source.names, b.finish.Has x) : (Build.bind s source).Safe b fun _ b' => ¬ b'.Open s := by
  have hs := Program.sourceInBounds_iff.2 hs
  have hext := extends_bind b s hne
  rw [Safe]
  rw [run_bind] at hext ⊢
  cases hslot : b.slots[s.index]? with
  | none => exact ⟨hb, .refl b, fun ⟨slot, h, _⟩ => by simp [hslot] at h⟩
  | some slot =>
    rw [hslot] at hext
    refine ⟨hb.grow hext { Builder.Added.refl b with slots := fun x hx => ?_ },
      ⟨hext, fun x h => (open_setSlot hne h).1⟩, fun h => (open_setSlot hne h).2 rfl⟩
    rw [Array.toList_setIfInBounds] at hx
    refine (List.mem_or_eq_of_mem_set hx).imp_right ?_
    rintro rfl
    exact hs

/-- To add a handle is safe, and gives the name of a handle. -/
theorem safe_handle {b : Builder} (hb : b.Sound) (owner : BlockIx) (kind : HandleKind) :
    (handle owner kind).Safe b fun h b' => b'.finish.Has (.handle h) := by
  have hext : b.Extends { b with handles := b.handles.push ⟨owner, kind⟩ } :=
    { Builder.Extends.refl b with handles := prefix_push _ _ }
  refine ⟨hb.grow hext { Builder.Added.refl b with }, ⟨hext, fun _ h => h⟩, ?_⟩
  show b.handles.size < (b.handles.push ⟨owner, kind⟩).toList.length
  simp

/-- To add a render sink with inputs in bounds is safe. -/
theorem safe_renderSink {b : Builder} (hb : b.Sound) {s : Sink} (hs : b.finish.sinkInBounds s = true) :
    (renderSink s).Safe b fun _ _ => True := by
  have hext : b.Extends { b with renderSinks := b.renderSinks.push s } :=
    { Builder.Extends.refl b with renderSinks := prefix_push _ _ }
  refine ⟨hb.grow hext { Builder.Added.refl b with renderSinks := fun x hx => (mem_toList_push hx).imp_right ?_ },
    ⟨hext, fun _ h => h⟩, trivial⟩
  rintro rfl
  exact hs

/-- To add a camera with inputs in bounds is safe. -/
theorem safe_camera {b : Builder} (hb : b.Sound) {s : Sink} (hs : b.finish.sinkInBounds s = true) :
    (camera s).Safe b fun _ _ => True := by
  have hext : b.Extends { b with cameras := b.cameras.push s } :=
    { Builder.Extends.refl b with cameras := prefix_push _ _ }
  refine ⟨hb.grow hext { Builder.Added.refl b with cameras := fun x hx => (mem_toList_push hx).imp_right ?_ },
    ⟨hext, fun _ h => h⟩, trivial⟩
  rintro rfl
  exact hs

/-- To add a step to the schedule is safe. -/
theorem safe_step {b : Builder} (hb : b.Sound) (s : ScheduleStep) : (step s).Safe b fun _ _ => True := by
  have hext : b.Extends { b with schedule := b.schedule.push s } :=
    { Builder.Extends.refl b with schedule := prefix_push _ _ }
  exact ⟨hb.grow hext { Builder.Added.refl b with }, ⟨hext, fun _ h => h⟩, trivial⟩

/-- A cell of state is added at the end. -/
theorem extends_pushState (b : Builder) (cell : StateCell) : b.Extends { b with states := b.states.push cell } :=
  { Builder.Extends.refl b with states := prefix_push _ _ }

/-- A cell of state with an initial value in bounds keeps a builder sound. -/
theorem sound_pushState {b : Builder} (hb : b.Sound) {cell : StateCell} (hc : b.finish.Has (.const cell.init)) :
    Builder.Sound { b with states := b.states.push cell } := by
  refine hb.grow (extends_pushState b cell) { Builder.Added.refl b with states := fun x hx => (mem_toList_push hx).imp_right ?_ }
  rintro rfl
  exact hc

/-- To add a cell of state is safe, and gives the name of a cell. -/
theorem safe_state {b : Builder} (hb : b.Sound) (owner : BlockIx) (init : Value) :
    (state owner init).Safe b fun s b' => b'.finish.Has (.state s) := by
  obtain ⟨hsound, hgrow, hc⟩ := safe_intern hb init
  refine ⟨sound_pushState hsound hc, hgrow.trans ⟨extends_pushState _ _, fun _ h => h⟩, ?_⟩
  show b.states.size < (b.states.push ⟨owner, _⟩).toList.length
  simp

end Build

end PatchGraph
