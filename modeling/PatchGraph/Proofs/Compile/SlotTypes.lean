import PatchGraph.Proofs.Compile.Clean
import PatchGraph.Proofs.Compile.Verification

/-!
# The types of slots

A slot of a type should hold an expression of the world that the type asks for. Every step that fills a slot sees to it (`Regime.sorted`)
but two kinds of lowering: a time root and a block with a state always make a signal (or the event of time), whatever type the output
is declared with. A registry may declare such an output as a field, and nothing is said.
-/

namespace PatchGraph

/-- A slot without a source, or with one of the world that its type asks for. -/
def Slot.Suited (slot : Slot) : Prop := slot.source = .unbound ∨ slot.source.fits slot.type.representation = true

/-- The regime of slots that hold what their types ask for. -/
def Regime.sorted : Regime where
  Inv _ b := ∀ slot ∈ b.slots, slot.Suited
  Le := Builder.Extends
  Usable _ _ := True
  Bound _ _ := True
  Strict := True

namespace Regime

variable {α : Type} {rs : List SlotId} {b : Builder}

/-- A step that leaves slots as they are. -/
theorem builds_sorted {m : Build α} {Q : α → Builder → Prop} (hb : sorted.Inv rs b) (hext : b.Extends (m.run b).2)
    (hslots : (m.run b).2.slots = b.slots) (hq : Q (m.run b).1 (m.run b).2) : sorted.Builds rs m b Q :=
  ⟨fun slot hslot => hb slot (hslots ▸ hslot), hext, hq⟩

/-- One more slot that holds what its type asks for. -/
theorem sorted_pushSlot (hb : sorted.Inv rs b) {slot : Slot} (hslot : slot.Suited) :
    sorted.Inv rs { b with slots := b.slots.push slot } := by
  intro x hx
  rcases Array.mem_push.1 hx with hx | rfl
  · exact hb x hx
  · exact hslot

/-- The elementary steps register an expression under a type that it fits. -/
theorem stateful_sorted : sorted.Stateful where
  refl := Builder.Extends.refl
  trans h h' := h.trans h'
  mono _ _ := trivial
  steady := id
  slotType _ _ _ _ _ h ht := h.slotType? ht
  intern v hb := builds_sorted hb (Build.extends_intern _ v) rfl trivial
  signal hb _ _ _ := builds_sorted hb (Build.extends_pushSignal _ _) rfl trivial
  field hb _ _ := builds_sorted hb (Build.extends_pushField _ _) rfl trivial
  event hb _ _ := builds_sorted hb (Build.extends_pushEvent _ _) rfl trivial
  slotFor hb _ hfits _ := ⟨sorted_pushSlot hb (.inr (hfits trivial)), Build.extends_pushSlot _ ⟨_, _⟩, trivial⟩
  handle _ _ hb := builds_sorted hb { Builder.Extends.refl _ with handles := Build.prefix_push _ _ } rfl trivial
  renderSink hb _ _ := builds_sorted hb { Builder.Extends.refl _ with renderSinks := Build.prefix_push _ _ } rfl trivial
  camera hb _ _ := builds_sorted hb { Builder.Extends.refl _ with cameras := Build.prefix_push _ _ } rfl trivial
  assert hb _ _ := builds_assert fun _ => ⟨hb, { Builder.Extends.refl _ with }⟩
  state _ init hb := builds_sorted hb
    ({ Builder.Extends.refl _ with consts := (Build.prefix_intern _ init).1, states := Build.prefix_push _ _ }) rfl trivial
  stateSignal hb _ _ := builds_sorted hb (Build.extends_pushSignal _ _) rfl trivial

/-- What is read from a slot is of the form that the type of the slot asks for. -/
theorem readSlot_sorted {s : SlotId} (hb : sorted.Inv rs b) :
    sorted.Builds rs (Build.readSlot s) b fun o b' => ∀ v ∈ o, sorted.Raw b' v :=
  builds_readSlot stateful_sorted.toElementary hb
    ⟨trivial, builds_sorted hb (Build.extends_pushSignal _ _) rfl trivial, builds_sorted hb (Build.extends_pushField _ _) rfl trivial,
      builds_sorted hb (Build.extends_pushEvent _ _) rfl trivial⟩

/-- A slot that is reserved is open, so it holds nothing wrong. -/
theorem reserves_sorted : sorted.Reserves := fun t hb =>
  ⟨sorted_pushSlot hb (.inl rfl), Build.extends_pushSlot _ ⟨t, .unbound⟩, trivial⟩

/-- A slot is given a source of the world that its type asks for. -/
theorem binds_sorted : sorted.Binds where
  mono _ _ := trivial
  bind {rs b s v source} hb _ hv hsource hfits := by
    obtain ⟨t, ht, hfits⟩ := hfits trivial
    refine ⟨?_, Build.extends_bind b s (hv.source hsource).1, trivial⟩
    obtain ⟨slot, hslot, rfl⟩ := Option.map_eq_some_iff.1 ht
    rw [Build.run_bind, hslot]
    intro x hx
    change x ∈ b.slots.setIfInBounds s.index { slot with source } at hx
    rw [← Array.mem_toList_iff, Array.toList_setIfInBounds] at hx
    rcases List.mem_or_eq_of_mem_set hx with hx | rfl
    · exact hb x (Array.mem_toList_iff.1 hx)
    · refine .inr ?_
      rw [ValueRef.fits_source hsource]
      exact hfits

theorem schedules_sorted : sorted.Schedules := fun _ hb =>
  builds_sorted hb { Builder.Extends.refl _ with schedule := Build.prefix_push _ _ } rfl trivial

/-- In a patch with truthful declarations the lowerings of a standard registry keep the slots sorted. -/
theorem lawful_sorted {a : Analysis} (hr : a.registry.Standard) (htruthful : a.Truthful) : sorted.Lawful a :=
  stateful_sorted.lawful hr (fun _ _ => raw_const.2 trivial) (fun hb _ => readSlot_sorted hb) fun _ => htruthful

/-- The emission of a patch whose outputs are declared truthfully. -/
theorem holds_sorted {a : Analysis} (hr : a.registry.Standard) (hbuses : a.types.buses.length = a.patch.buses.length)
    (htruthful : a.Truthful) (consts : Pool) (options : Options) : sorted.Holds a (a.emission consts options) :=
  holds_emission (lawful_sorted hr htruthful) reserves_sorted binds_sorted schedules_sorted options hbuses
    fun _ hslot => absurd hslot (Array.not_mem_empty _)

end Regime

/-! ## Registries with truthful declarations -/

namespace LoweringKind

/-- What a time root makes does not depend on the time, apart from outputs that only cyclic time has. -/
theorem timeForm?_of_cyclic {time cyclic : TimeModel} (hcyclic : cyclic.isCyclic = true) {port : String} {form : Representation}
    (h : timeForm? time port = some form) : timeForm? cyclic port = some form := by
  unfold timeForm? at h ⊢
  rw [hcyclic]
  cases ht : time.isCyclic with
  | true => rwa [ht] at h
  | false =>
    rw [ht] at h
    simp only [Bool.false_eq_true, and_false, if_false] at h
    split at h
    · rw [if_pos ‹_›]
      exact h
    · rw [if_neg ‹_›]
      split at h
      · rw [if_pos ‹_›]
        exact h
      · cases h

/-- Declarations that are truthful when time is cyclic always are. -/
theorem Truthful.of_cyclic {k : LoweringKind} {time cyclic : TimeModel} (hcyclic : cyclic.isCyclic = true)
    {declared : List (String × Option ValueType)} (h : k.Truthful cyclic declared) : k.Truthful time declared := by
  cases k with
  | timeRoot =>
    intro x hx
    obtain ⟨⟨port, type⟩, hport, hx⟩ := List.mem_filterMap.1 hx
    obtain ⟨form, hform, hx⟩ := Option.bind_eq_some_iff.1 hx
    exact h x (List.mem_filterMap.2 ⟨_, hport, Option.bind_eq_some_iff.2 ⟨form, timeForm?_of_cyclic hcyclic hform, hx⟩⟩)
  | _ => exact h

end LoweringKind

/-- Whether declarations are truthful can be seen from the entries of the blocks of a patch. -/
theorem Patch.truthful_iff (p : Patch) (r : Registry) (time : Time) :
    (p.analysis r time).Truthful ↔ ∀ ix block entry k, (p.normalize r).1.block? ix = some block → r.block? block.type = some entry →
      entry.lowering = some (.kind k) → k.Truthful time.model (Typing.portTypes entry.decl).outputs := by
  have hports : ∀ {ix entry}, Analysis.entry? (p.analysis r time) ix = some entry →
      (p.analysis r time).types.ports? ix = some (Typing.portTypes entry.decl) := fun hentry => by
    have hdecl : (p.normalize r).1.decl? r _ = some _ := Visit.decl?_of_entry hentry
    exact (Typing.ports?_table _ r _).trans (congrArg (Option.map _) hdecl)
  constructor
  · intro h ix block entry k hblock hentry hl
    have hentry : Analysis.entry? (p.analysis r time) ix = some entry := Option.bind_eq_some_iff.2 ⟨block, hblock, hentry⟩
    exact h ix k _ (Option.bind_eq_some_iff.2 ⟨entry, hentry, hl⟩) (hports hentry)
  · intro h ix k ports hl hp
    obtain ⟨entry, hentry, hl⟩ := Option.bind_eq_some_iff.1 hl
    obtain rfl := Option.some.inj ((hports hentry).symm.trans hp)
    obtain ⟨block, hblock, hentry⟩ := Option.bind_eq_some_iff.1 hentry
    exact h ix block entry k hblock hentry hl

namespace Registry

/-- All outputs of a registry whose form is given by a lowering are declared with a type that asks for that form. -/
def Truthful (r : Registry) : Prop :=
  ∀ e ∈ r.blocks.values, ∀ k, e.lowering = some (.kind k) → ∀ time, k.Truthful time (Typing.portTypes e.decl).outputs

/-- A patch is declared truthfully if its registry is. -/
theorem Truthful.analysis {r : Registry} (h : r.Truthful) (p : Patch) (time : Time) : (p.analysis r time).Truthful :=
  (p.truthful_iff r time).2 fun _ _ entry k _ hentry hl => h entry (Dict.mem_values_of_get? hentry) k hl time.model

/-- The built-in declarations are truthful. -/
theorem truthful_builtin : builtin.Truthful := by
  have hall : ∀ e ∈ builtin.blocks.values, ∀ k ∈ e.lowering.bind Lowering.kind?,
      k.Truthful (.cyclic .one .loop) (Typing.portTypes e.decl).outputs := by
    decide +kernel
  intro e he k hk time
  have hcyclic := hall e he k (Option.bind_eq_some_iff.2 ⟨_, hk, rfl⟩)
  exact hcyclic.of_cyclic rfl

end Registry

end PatchGraph
