import PatchGraph.Proofs.Compile.BusSlots
import PatchGraph.Proofs.Compile.Forms

/-!
# Steps that only append

Lowerings and transforms add to the tables of a program and leave what is there as it is. Those that are known by name do, and for any
others this is all that has to be known (`Registry.AppendOnly`): they may return whatever they like. So while blocks are lowered and
publishers are followed, tables grow at the end only, and the slots that were reserved are distinct and stay as they are
(`Regime.appends`). Only where a slot is given its source does an entry change (`Builder.KeepsBut`).
-/

namespace PatchGraph

/-! ## Tables that grow at the end -/

/-- Constants, expressions and slots only were added. -/
structure Builder.Appends (b b' : Builder) : Prop extends Builder.Prefix b b' where
  consts : b.consts.values.toList <+: b'.consts.values.toList

namespace Builder.Appends

theorem refl (b : Builder) : b.Appends b := ⟨.refl b, List.prefix_refl _⟩

/-- To append twice is to append. -/
theorem trans {b b' b'' : Builder} (h : b.Appends b') (h' : b'.Appends b'') : b.Appends b'' :=
  ⟨h.toPrefix.trans h'.toPrefix, h.consts.trans h'.consts⟩

/-- A slot stays as it is. -/
theorem slot? {b b' : Builder} (h : b.Appends b') {i : Nat} {slot : Slot} (hslot : b.slots[i]? = some slot) :
    b'.slots[i]? = some slot := by
  rw [← Array.getElem?_toList] at hslot ⊢
  exact getElem?_of_prefix h.slots hslot

/-- Slots are never given up. -/
theorem size_slots_le {b b' : Builder} (h : b.Appends b') : b.slots.size ≤ b'.slots.size := by
  simpa using h.slots.length_le

end Builder.Appends

/-- Constants and expressions only were added; slots keep their types, and all but some keep their sources. -/
structure Builder.KeepsBut (bound : List SlotId) (b b' : Builder) : Prop where
  consts : b.consts.values.toList <+: b'.consts.values.toList
  signals : b.signals.toList <+: b'.signals.toList
  fields : b.fields.toList <+: b'.fields.toList
  events : b.events.toList <+: b'.events.toList
  types : ∀ s t, b.slotType? s = some t → b'.slotType? s = some t
  slots : ∀ s ∉ bound, ∀ slot, b.slots[s.index]? = some slot → b'.slots[s.index]? = some slot

namespace Builder.KeepsBut

variable {bound bound' : List SlotId} {b b' b'' : Builder}

/-- To keep all but some slots twice is to keep all but those. -/
theorem trans (h : b.KeepsBut bound b') (h' : b'.KeepsBut bound b'') : b.KeepsBut bound b'' where
  consts := h.consts.trans h'.consts
  signals := h.signals.trans h'.signals
  fields := h.fields.trans h'.fields
  events := h.events.trans h'.events
  types s t ht := h'.types s t (h.types s t ht)
  slots s hs slot hslot := h'.slots s hs slot (h.slots s hs slot hslot)

/-- What keeps all but some slots keeps all but more. -/
theorem mono (h : b.KeepsBut bound b') (hsubset : bound ⊆ bound') : b.KeepsBut bound' b' :=
  { h with slots := fun s hs => h.slots s fun hmem => hs (hsubset hmem) }

/-- A slot stays a slot. -/
theorem lt (h : b.KeepsBut bound b') {s : SlotId} (hs : s.index < b.slots.size) : s.index < b'.slots.size := by
  have htype : b.slotType? s = some b.slots[s.index].type := by rw [slotType?, Array.getElem?_eq_getElem hs, Option.map_some]
  obtain ⟨slot, hslot, -⟩ := Option.map_eq_some_iff.1 (h.types s _ htype)
  exact (Array.getElem?_eq_some_iff.1 hslot).1

end Builder.KeepsBut

/-- To append keeps all slots, so all but any. -/
theorem Builder.Appends.keepsBut {b b' : Builder} (h : b.Appends b') (bound : List SlotId) : b.KeepsBut bound b' where
  consts := h.consts
  signals := h.signals
  fields := h.fields
  events := h.events
  types s t ht := by
    obtain ⟨slot, hslot, ht⟩ := Option.map_eq_some_iff.1 ht
    exact Option.map_eq_some_iff.2 ⟨slot, h.slot? hslot, ht⟩
  slots s _ slot hslot := h.slot? hslot

/-- Giving a slot its source changes nothing else. -/
theorem Build.keepsBut_bind (b : Builder) (s : SlotId) (source : SlotSource) : b.KeepsBut [s] ((Build.bind s source).run b).2 := by
  have hslots := Build.slots_bind b s source
  obtain ⟨slots, heq⟩ : ∃ slots, ((Build.bind s source).run b).2 = { b with slots } := by
    rw [Build.run_bind]
    split
    · exact ⟨_, rfl⟩
    · exact ⟨b.slots, rfl⟩
  refine ⟨heq ▸ List.prefix_refl _, heq ▸ List.prefix_refl _, heq ▸ List.prefix_refl _, heq ▸ List.prefix_refl _, fun s' t ht => ?_,
    fun s' hs' slot hslot => ?_⟩
  · obtain ⟨slot, hslot, rfl⟩ := Option.map_eq_some_iff.1 ht
    rw [Builder.slotType?, hslots, hslot]
    split <;> rfl
  · have hne : s'.index ≠ s.index := fun heq => hs' (List.mem_singleton.2 (congrArg SlotId.mk heq))
    rw [hslots, if_neg hne, hslot]

/-! ## Registries that append -/

namespace Registry

/-- The lowerings and transforms of a registry that are not known by name only add to the tables of a program. -/
structure AppendOnly (r : Registry) : Prop where
  lowerings : ∀ e ∈ r.blocks.values, ∀ run, e.lowering = some (.custom run) →
    ∀ site inputs (b : Builder), b.Appends ((run site inputs).run.run b).2
  transforms : ∀ kind, ∀ e ∈ (r.transforms kind).values, ∀ run, e.transform = some (.custom run) →
    ∀ v params (b : Builder), b.Appends ((run v params).run.run b).2

/-- A registry that knows all its lowerings and transforms by name has no others. -/
theorem Standard.appendOnly {r : Registry} (hr : r.Standard) : r.AppendOnly where
  lowerings _ he run hrun := absurd hrun (hr.lowering_ne_custom he run)
  transforms _ _ he run hrun := absurd hrun (hr.transform_ne_custom he run)

end Registry

/-! ## The regime of appending -/

namespace Regime

/-- The regime in which tables grow at the end only, and reserved slots are distinct. -/
def appends : Regime where
  Inv rs b := rs.Nodup ∧ ∀ s ∈ rs, s.index < b.slots.size
  Le := Builder.Appends
  Usable _ _ := True
  Bound _ _ := True
  Strict := False
  Steady := True

variable {α ε : Type} {rs : List SlotId} {b : Builder}

/-- A step that only appends keeps to the regime. -/
theorem builds_appends {m : Build α} {Q : α → Builder → Prop} (hb : appends.Inv rs b) (hm : b.Appends (m.run b).2)
    (h : Q (m.run b).1 (m.run b).2) : appends.Builds rs m b Q :=
  ⟨⟨hb.1, fun s hs => Nat.lt_of_lt_of_le (hb.2 s hs) hm.size_slots_le⟩, hm, h⟩

/-- The slots that were reserved stay distinct whatever they are bound to. -/
theorem inv_appends {b' : Builder} {bound : List SlotId} (hb : appends.Inv rs b) (h : b.KeepsBut bound b') : appends.Inv rs b' :=
  ⟨hb.1, fun s hs => h.lt (hb.2 s hs)⟩

theorem raw_appends (b : Builder) (v : ValueRef) : appends.Raw b v := ⟨fun _ _ => trivial, False.elim⟩

/-- The elementary steps only append. -/
theorem stateful_appends : appends.Stateful where
  refl := .refl
  trans := .trans
  mono _ _ := trivial
  steady := False.elim
  slotType _ _ _ s t h ht := (h.keepsBut []).types s t ht
  intern v hb := builds_appends hb { Builder.Appends.refl _ with consts := (Build.prefix_intern _ v).1 } trivial
  signal hb _ _ _ := builds_appends hb { Builder.Appends.refl _ with signals := Build.prefix_push _ _ } trivial
  field hb _ _ := builds_appends hb { Builder.Appends.refl _ with fields := Build.prefix_push _ _ } trivial
  event hb _ _ := builds_appends hb { Builder.Appends.refl _ with events := Build.prefix_push _ _ } trivial
  slotFor hb _ _ _ := builds_appends hb { Builder.Appends.refl _ with slots := Build.prefix_push _ _ } trivial
  handle _ _ hb := builds_appends hb { Builder.Appends.refl _ with } trivial
  renderSink hb _ _ := builds_appends hb { Builder.Appends.refl _ with } trivial
  camera hb _ _ := builds_appends hb { Builder.Appends.refl _ with } trivial
  assert hb _ _ := builds_assert fun _ => ⟨hb, { Builder.Appends.refl _ with }⟩
  state _ v hb := builds_appends hb { Builder.Appends.refl _ with consts := (Build.prefix_intern _ v).1 } trivial
  stateSignal hb _ _ := builds_appends hb { Builder.Appends.refl _ with signals := Build.prefix_push _ _ } trivial

/-- To read a slot only appends. -/
theorem readable_appends {s : SlotId} (hb : appends.Inv rs b) : appends.Readable rs s b :=
  ⟨trivial, builds_appends hb { Builder.Appends.refl _ with signals := Build.prefix_push _ _ } trivial,
    builds_appends hb { Builder.Appends.refl _ with fields := Build.prefix_push _ _ } trivial,
    builds_appends hb { Builder.Appends.refl _ with events := Build.prefix_push _ _ } trivial⟩

/-- A slot that is reserved is a new one. -/
theorem reserves_appends : appends.Reserves := by
  intro rs b t hb
  have hsize : ((Build.reserve t).run b).2.slots.size = b.slots.size + 1 := Array.size_push _
  refine ⟨⟨?_, ?_⟩, { Builder.Appends.refl _ with slots := Build.prefix_push _ _ }, trivial⟩
  · refine List.nodup_append.2 ⟨hb.1, List.pairwise_singleton _ _, fun s hs s' hs' => ?_⟩
    rintro rfl
    rw [List.mem_singleton.1 hs'] at hs
    exact Nat.lt_irrefl _ (hb.2 _ hs)
  · refine List.forall_mem_append.2 ⟨fun s hs => ?_, List.forall_mem_singleton.2 ?_⟩
    · exact hsize ▸ Nat.lt_succ_of_lt (hb.2 s hs)
    · exact hsize ▸ Nat.lt_succ_self _

section Lawful

variable {a : Analysis} (hr : a.registry.AppendOnly)

include hr

/-- All steps of a registry that appends keep to the regime. -/
theorem lawful_appends : appends.Lawful a :=
  Customs.lawful
    ⟨fun e he run hrun site inputs _ b hb => builds_appends hb (hr.lowerings e he run hrun site inputs b) trivial,
      fun kind e he run hrun v params _ b hb => builds_appends hb (hr.transforms kind e he run hrun v params b) trivial⟩
    stateful_appends id raw_appends readable_appends

/-! ## Buses -/

variable {slots : BusSlots} {l : Lowered} {w : Workbench}

/-- Lowering a bus changes no entry but its own slot. -/
theorem keepsBut_lower (hslots : a.SlotsTyped slots) (ix : BusIx) (bus : Bus) (hw : appends.Inv rs w.builder) :
    w.builder.KeepsBut slots[ix.index]?.join.toList ((BusValue.lower a slots l ix bus).run w).2.builder := by
  cases hs : slots[ix.index]?.join with
  | none =>
    rw [builder_lower_of_none bus hs]
    exact (Builder.Appends.refl _).keepsBut _
  | some slot =>
    obtain ⟨b, v, source, -, hle, -, -, -, hrun⟩ := settles_lower (lawful_appends hr).toRouted hslots False.elim bus hs hw
      fun _ _ v _ => raw_appends _ v
    rw [hrun]
    exact (hle.keepsBut _).trans (Build.keepsBut_bind b slot source)

/-- Lowering buses changes no entries but their slots. -/
theorem keepsBut_lowerAll (hslots : a.SlotsTyped slots) (buses : List (BusIx × Bus)) (hw : appends.Inv rs w.builder) :
    w.builder.KeepsBut (buses.flatMap fun x => slots[x.1.index]?.join.toList)
      ((BusValue.lowerAll a slots l buses).run w).2.builder := by
  induction buses generalizing w with
  | nil => exact (Builder.Appends.refl _).keepsBut _
  | cons x rest ih =>
    have hfirst := keepsBut_lower (l := l) hr hslots x.1 x.2 hw
    rw [List.flatMap_cons]
    exact (hfirst.mono (List.subset_append_left _ _)).trans ((ih (inv_appends hw hfirst)).mono (List.subset_append_right _ _))

end Lawful

end Regime

/-- When the blocks are lowered, the slots of the buses and those inside cycles are distinct, and they have their types. -/
theorem Analysis.appends_emission {a : Analysis} (hr : a.registry.AppendOnly) (consts : Pool) (options : Options) :
    let e := a.emission consts options
    Regime.appends.Inv (e.slots.filterMap id ++ e.lowered.forwards.map (·.slot)) e.afterBlocks.builder
      ∧ a.BusesTyped e.slots e.afterBlocks.builder ∧ Regime.appends.Lowers a e.lowered e.afterBlocks.builder
      ∧ Regime.appends.Forwards a e.lowered.forwards e.afterBlocks.builder := by
  intro e
  obtain ⟨hstart, -⟩ := Regime.reserved_reserveBusSlots (Regime.lawful_appends hr).toRouted Regime.reserves_appends a.types.buses
    (b := { consts, timeModel := some a.time.model }) ⟨.nil, List.forall_mem_nil _⟩
  rw [List.nil_append] at hstart
  obtain ⟨hinv, hle, hl, hforwards⟩ :=
    Regime.lowers_lowerBlocks (w := { builder := _ }) (Regime.lawful_appends hr) Regime.reserves_appends hstart
  have htypes := (a.typed_busSlots { consts, timeModel := some a.time.model }).2
  exact ⟨hinv, fun ix s t hs ht => (hle.keepsBut []).types s t (htypes ix s t hs ht), hl, hforwards⟩

end PatchGraph
