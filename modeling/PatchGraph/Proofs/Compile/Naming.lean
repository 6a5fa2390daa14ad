import PatchGraph.Proofs.Compile.Stages
import PatchGraph.Proofs.Patch.Defaults
import PatchGraph.Proofs.Program.Growth
import PatchGraph.Proofs.Registry.Loaded

/-!
# Names in linked programs

With a registry that was made of manifests every step of an emission keeps the names of the program in bounds, also a step that fails
half-way, and opens no slot but the reserved ones. This is the regime of names (`Regime.names`). So in a program that
a compilation returns every name is the name of something, and operands come before the expressions made of them.
-/

namespace PatchGraph

/-- A program in the making: its names are in bounds, the reserved slots are there and no others are open, and the defaults of
the patch are among its constants. -/
structure Builder.Orderly (n : Normalized) (reserved : List SlotId) (b : Builder) : Prop where
  sound : b.Sound
  isSlot : ∀ s ∈ reserved, s.index < b.slots.size
  isReserved : ∀ s, b.Open s → s ∈ reserved
  defaults : ∀ d ∈ n.defaults, b.finish.Has (.const d.constant)

/-- The regime of names: they are in bounds, and only reserved slots are open. -/
def Regime.names (n : Normalized) : Regime where
  Inv := Builder.Orderly n
  Le := Builder.Extends
  Usable b x := b.finish.Has x
  Bound s b := s.index < b.slots.size ∧ ¬ b.Open s

/-! ## Safe steps keep to the regime -/

namespace Builder.Orderly

variable {α : Type} {n : Normalized} {reserved : List SlotId} {b b' : Builder}

theorem grow (h : b.Orderly n reserved) (hs : b'.Sound) (hg : b.Grows b') : b'.Orderly n reserved where
  sound := hs
  isSlot s hmem := Nat.lt_of_lt_of_le (h.isSlot s hmem) hg.size_slots_le
  isReserved s hopen := h.isReserved s (hg.noneOpened s hopen)
  defaults d hd := hg.within.has (h.defaults d hd)

theorem builds {m : Build α} {Q : α → Builder → Prop} (h : b.Orderly n reserved) (hm : m.Safe b Q) :
    (Regime.names n).Builds reserved m b Q :=
  ⟨h.grow hm.1 hm.2.1, hm.2.1.toExtends, hm.2.2⟩

/-- A slot that is reserved is open. -/
theorem reserve (h : b.Orderly n reserved) (t : ValueType) :
    (Regime.names n).Builds (reserved ++ [⟨b.slots.size⟩]) (Build.reserve t) b fun _ _ => True := by
  have hext := Build.extends_pushSlot b ⟨t, .unbound⟩
  refine ⟨⟨Build.sound_pushSlot h.sound nofun, ?_, fun s hopen => ?_, fun d hd => h.defaults d hd⟩, hext, trivial⟩
  · refine List.forall_mem_append.2 ⟨fun s hs => Nat.lt_of_lt_of_le (h.isSlot s hs) hext.size_slots_le, ?_⟩
    rintro s hs
    obtain rfl := List.mem_singleton.1 hs
    show b.slots.size < (b.slots.push ⟨t, .unbound⟩).size
    simp
  · rcases Build.open_pushSlot hopen with hopen | ⟨hs, -⟩
    · exact List.mem_append_left _ (h.isReserved s hopen)
    · exact List.mem_append_right _ (List.mem_singleton.2 (congrArg SlotId.mk hs))

end Builder.Orderly

namespace Regime

variable {n : Normalized}

/-- A value may be used if its names are in bounds. -/
theorem raw_names {b : Builder} {v : ValueRef} : (names n).Raw b v ↔ b.finish.valueInBounds v = true :=
  ⟨fun hv => Program.valueInBounds_iff.2 hv.1, fun hv => ⟨Program.valueInBounds_iff.1 hv, False.elim⟩⟩

/-- The inputs of a sink are in bounds if they may be used. -/
theorem sinkInBounds_of_rawAll {b : Builder} {s : Sink} (hh : b.finish.Has (.handle s.handle)) (hin : (names n).RawAll b s.inputs) :
    b.finish.sinkInBounds s = true :=
  Program.sinkInBounds_iff.2 ⟨hh, fun v hv => (hin v hv).1⟩

theorem stateful_names (n : Normalized) : (names n).Stateful where
  refl := Builder.Extends.refl
  trans := Builder.Extends.trans
  mono h hx := h.within.has hx
  steady := id
  slotType := False.elim
  intern v hb := hb.builds (Build.safe_intern hb.sound v)
  signal hb _ _ he := hb.builds (Build.safe_signal hb.sound he)
  field hb _ he := hb.builds (Build.safe_field hb.sound he)
  event hb _ he := hb.builds (Build.safe_event hb.sound he)
  slotFor hb hne _ hs := hb.builds (Build.safe_slotFor hb.sound _ hne hs)
  handle owner kind hb := hb.builds (Build.safe_handle hb.sound owner kind)
  renderSink hb hh hin := hb.builds (Build.safe_renderSink hb.sound (sinkInBounds_of_rawAll hh hin))
  camera hb hh hin := hb.builds (Build.safe_camera hb.sound (sinkInBounds_of_rawAll hh hin))
  assert hb _ _ := builds_assert fun _ => ⟨{ hb with sound := { hb.sound with } }, { Builder.Extends.refl _ with }⟩
  state owner init hb := hb.builds (Build.safe_state hb.sound owner init)
  stateSignal hb _ he := hb.builds (Build.safe_signal hb.sound he)

/-- What is read from a reserved slot is there. -/
theorem readSlot_names {rs : List SlotId} {b : Builder} {s : SlotId} (hb : (names n).Inv rs b) (hs : s ∈ rs) :
    (names n).Builds rs (Build.readSlot s) b fun o b' => ∀ v ∈ o, (names n).Raw b' v := by
  have hslot : b.finish.Has (.slot s) := hb.isSlot s hs
  have hnames : ∀ x ∈ [Name.slot s], b.finish.Has x := List.forall_mem_singleton.2 hslot
  exact builds_readSlot (stateful_names n).toElementary hb
    ⟨hslot, hb.builds (Build.safe_signal hb.sound (e := .read s) hnames), hb.builds (Build.safe_field hb.sound (e := .read s) hnames),
      hb.builds (Build.safe_event hb.sound (e := .read s) hnames)⟩

/-- The source that a value gives to a slot is made of the value's names. -/
theorem Raw.source {R : Regime} {b : Builder} {v : ValueRef} {source : SlotSource} (hv : R.Raw b v) (hs : v.source? = some source) :
    source ≠ .unbound ∧ ∀ x ∈ source.names, R.Usable b x := by
  cases v with
  | const | special => cases hs
  | signal | field | event =>
    obtain rfl := Option.some.inj hs
    exact ⟨nofun, List.forall_mem_singleton.2 (hv.1 _ (List.mem_cons_self ..))⟩

theorem binds_names (n : Normalized) : (names n).Binds where
  mono h hs := ⟨Nat.lt_of_lt_of_le hs.1 h.size_slots_le, fun hopen => hs.2 (h.isOpen _ hs.1 hopen)⟩
  bind hb hs hv hsource _ := by
    obtain ⟨hne, hin⟩ := hv.source hsource
    obtain ⟨hinv, hle, hclosed⟩ := hb.builds (Build.safe_bind hb.sound hne hin)
    exact ⟨hinv, hle, hinv.isSlot _ hs, hclosed⟩

/-- With a registry that knows no other lowerings and transforms, every step keeps to the regime of names. -/
theorem lawful_names {a : Analysis} (hr : a.registry.Standard) : (names a.patch).Lawful a :=
  (stateful_names a.patch).lawful hr (fun hb hd => raw_const.2 (hb.defaults _ hd)) (fun hb hs => readSlot_names hb hs) False.elim

end Regime

/-! ## Emissions -/

/-- The constants of the defaults are in the pool that they were put into. -/
theorem Patch.constant_lt_of_mem_defaults {p : Patch} {r : Registry} {d : DefaultSource} (hd : d ∈ (p.normalize r).1.defaults) :
    d.constant.index < (p.normalize r).2.values.toList.length := by
  obtain ⟨i, -, hsource⟩ := (internInputs_sources {} (p.allOpenInputs r)).2.1 d hd
  obtain ⟨hlt, -⟩ := Array.getElem?_eq_some_iff.1 hsource.constant
  rwa [Array.length_toList]

/-- A program without anything but constants. -/
theorem Builder.orderly_start {n : Normalized} {consts : Pool} (m : TimeModel)
    (hdefaults : ∀ d ∈ n.defaults, d.constant.index < consts.values.toList.length) :
    Orderly n [] { consts, timeModel := some m } where
  sound := by
    constructor
    case signals | fields | events => exact fun _ _ h => nomatch h
    all_goals exact fun _ h => absurd h List.not_mem_nil
  isSlot _ h := absurd h List.not_mem_nil
  isReserved _ h := by
    obtain ⟨_, h, -⟩ := h
    cases h
  defaults := hdefaults

variable {p : Patch} {r : Registry}

/-- The emission of a patch keeps to the regime of names. -/
theorem Regime.holds_names (hr : r.Standard) (p : Patch) (time : Time) (options : Options) :
    (names (p.analysis r time).patch).Holds (p.analysis r time) ((p.analysis r time).emission (p.normalize r).2 options) := by
  refine holds_emission (lawful_names (a := p.analysis r time) hr) (fun t hb => hb.reserve t) (binds_names _)
    (fun s hb => hb.builds (Build.safe_step hb.sound s)) options ?_ (Builder.orderly_start _ ?_)
  · exact List.length_map _
  · exact fun d hd => Patch.constant_lt_of_mem_defaults hd

/-- All names of a linked program are in bounds if those of its tables and of its ports are. -/
theorem Regime.Holds.inBounds {a : Analysis} {e : Emission} (h : (names a.patch).Holds a e) : e.linked.inBounds = true := by
  have hblocks : e.linked.blockIds.length = a.patch.blocks.length := by rw [h.links.blockIds, List.length_map]
  rw [Linked.inBounds, Bool.and_eq_true, List.all_eq_true, hblocks, h.links.program]
  refine ⟨h.inv.sound.inBounds, List.forall_mem_append.2 ⟨fun p hp => ?_, fun p hp => ?_⟩⟩
  · obtain ⟨hlt, t, -, hvalue, -⟩ := h.links.inputs p hp
    exact Bool.and_eq_true_iff.2 ⟨decide_eq_true hlt, raw_names.1 hvalue⟩
  · obtain ⟨hlt, hvalue⟩ := h.links.outputs p hp
    exact Bool.and_eq_true_iff.2 ⟨decide_eq_true hlt, raw_names.1 hvalue⟩

/-- Whatever a compilation returns, also after errors, has all its names in bounds and its operands before the expressions that are
made of them. -/
theorem linked_inBounds_backward (hr : r.Loaded) {options : Options} {l : Linked} (h : (compile p r options).linked = some l) :
    l.inBounds = true ∧ ("R2_expr_refs_in_bounds", true) ∈ l.verify.obligations ∧ l.program.Backward := by
  obtain ⟨time, e, he, rfl, -⟩ := linked_compile h
  have hnames := Regime.holds_names hr.standard p time options
  rw [← he] at hnames
  have hin : e.linked.inBounds = true := hnames.inBounds
  refine ⟨hin, ?_, ?_⟩
  · rw [Linked.verify, hin]
    exact List.mem_cons_of_mem _ (List.mem_cons_self ..)
  · rw [hnames.links.program]
    exact hnames.inv.sound.backward

/-- A delay that feeds itself. -/
def delayLoop (init : Value) : Patch where
  blocks := [⟨"t", "InfiniteTimeRoot", {}, {}⟩, ⟨"d", "Delay", Dict.insert {} "init" init, {}⟩]
  edges := [{ id := "e", source := .port "d" "out", target := .port "d" "in" }]

/-- A delay that starts from no number is not lowered, but its program has the signals that were made before. -/
theorem linked_inBounds_backward_delayLoop :
    ∃ l, (compile (delayLoop (.text "x")) .builtin {}).linked = some l ∧ l.program.signals.length = 2
      ∧ l.inBounds = true ∧ ("R2_expr_refs_in_bounds", true) ∈ l.verify.obligations ∧ l.program.Backward := by
  have hlinked : (compile (delayLoop (.text "x")) .builtin {}).linked.any (·.program.signals.length = 2) = true := by
    decide +kernel
  obtain ⟨l, hl, hlength⟩ := (Option.any_eq_true _ _).1 hlinked
  exact ⟨l, hl, of_decide_eq_true hlength, linked_inBounds_backward .builtin hl⟩

end PatchGraph
