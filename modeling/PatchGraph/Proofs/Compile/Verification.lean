import PatchGraph.Proofs.Compile.Naming

/-!
# Programs that pass their verification

A slot of a linked program has a source unless it was reserved for an output that never got a value, and then that is reported. So
the verification can only fail where an error was reported before, and never has anything to say.
-/

namespace PatchGraph

/-- A slot that is reserved for an output of a block, which the type of the block declares. -/
structure ForwardSlot.IsOutput (n : Normalized) (r : Registry) (f : ForwardSlot) (b : Block) : Prop where
  block : n.block? f.block = some b
  declared : ∃ decl, r.decl? b.type = some decl ∧ ∃ output ∈ decl.outputs, output.id = f.port

/-- A slot is only reserved for outputs that are there. -/
theorem Patch.isOutput_of_canForward {p : Patch} {r : Registry} {time : Time} {f : ForwardSlot}
    (h : (p.analysis r time).CanForward f) : ∃ b, f.IsOutput (p.normalize r).1 r b := by
  obtain ⟨t, ht⟩ := h.exists_type
  obtain ⟨b, decl, hb, hdecl, houtput⟩ := Typing.exists_output_of_outputType? ht
  exact ⟨b, hb, decl, hdecl, houtput⟩

namespace Regime.Holds

variable {a : Analysis} {e : Emission} (h : (names a.patch).Holds a e)

include h

/-- A slot that stays open was reserved for an output, and that is reported. -/
theorem reported_of_open {s : SlotId} (hopen : e.afterLink.builder.Open s) :
    ∃ f ∈ e.lowered.forwards, f.slot = s ∧ a.CanForward f
      ∧ Linking.unboundForward (a.patch.blockId f.block) f.port ∈ e.afterLink.diagnostics := by
  rcases List.mem_append.1 (h.inv.isReserved s hopen) with hs | hs
  · exact absurd hopen (h.buses s hs).2
  · obtain ⟨f, hf, rfl⟩ := List.mem_map.1 hs
    obtain ⟨hforward, hbound | hsaid⟩ := h.forwards f hf
    · exact absurd hopen hbound.2
    · exact ⟨f, hf, rfl, hforward, hsaid⟩

theorem open_of_unbound {i : Nat} {slot : Slot} (hi : e.linked.program.slots[i]? = some slot) (hslot : slot.source = .unbound) :
    e.afterLink.builder.Open ⟨i⟩ := by
  rw [h.links.program] at hi
  exact ⟨slot, Array.getElem?_toList .. ▸ hi, hslot⟩

/-- All slots have a source if linking reported no error. -/
theorem slotsBound (hnone : hasErrors e.afterLink.diagnostics = false) : e.linked.slotsBound = true := by
  refine List.all_eq_true.2 fun slot hslot => bne_iff_ne.2 fun hunbound => ?_
  obtain ⟨i, hi⟩ := List.getElem?_of_mem hslot
  obtain ⟨f, -, -, -, hsaid⟩ := h.reported_of_open (h.open_of_unbound hi hunbound)
  exact absurd (List.any_eq_true.2 ⟨_, hsaid, rfl⟩) (Bool.eq_false_iff.1 hnone)

/-- A program passes its verification if linking reported no error. -/
theorem passes (hnone : hasErrors e.afterLink.diagnostics = false) : e.linked.verify.passes = true := by
  have hslots := h.slotsBound hnone
  have htyped : e.linked.inputsTyped = true := h.links.inputsTyped
  rw [Linked.verify, Certificate.passes, hslots, h.inBounds, htyped]
  rfl

/-- The verification has nothing to say. -/
theorem unverified_eq_nil : e.unverified = [] := by
  unfold Emission.unverified
  split
  · rfl
  · rename_i hpasses
    simp only [Bool.or_eq_true, not_or, Bool.not_eq_true] at hpasses
    cases (h.passes hpasses.1.2).symm.trans hpasses.2

end Regime.Holds

/-- Every slot without a source was reserved for an output of a block, and it is reported that the output has no value. So a program
passes its verification if no other error is reported, and no compilation ever reports that a program does not. -/
theorem unbound_slots_reported {r : Registry} (hr : r.Loaded) (p : Patch) (options : Options) :
    (∀ l, (compile p r options).linked = some l →
      (∀ (i : Nat) (slot : Slot), l.program.slots[i]? = some slot → slot.source = .unbound →
        ∃ lowered, (Compilation.run { patch := p, registry := r, options } .link).state.artifacts.lowered = some lowered ∧
          ∃ f ∈ lowered.forwards, f.slot = ⟨i⟩ ∧ ∃ b, f.IsOutput (p.normalize r).1 r b ∧
            ∃ d ∈ (compile p r options).diagnostics, d.code = some .missingOutput ∧ d.locator = .port b.id f.port) ∧
      ((∀ d ∈ (compile p r options).diagnostics, d.isError = true → d.code = some .unverified) → l.verify.passes = true)) ∧
    ∀ d ∈ (compile p r options).diagnostics, d.code ≠ some .unverified := by
  rcases compile_cases p r options with ⟨time, e, he, hlinked, hsaid, hlowered⟩ | ⟨hnone, hrefused⟩
  · have hnames := Regime.holds_names hr.standard p time options
    have hremarks := (p.analysis r time).remarks_emission (p.normalize r).2 options
    rw [← he] at hnames hremarks
    have hdiagnostics : e.diagnostics = e.afterBlocks.diagnostics ++ e.afterBuses.diagnostics ++ e.afterLink.diagnostics := by
      rw [Emission.diagnostics, hnames.unverified_eq_nil, List.append_nil]
    rw [hsaid, hdiagnostics]
    refine ⟨fun l hl => ?_, fun d hd => (hremarks d hd).ne_unverified⟩
    obtain rfl := Option.some.inj (hlinked.symm.trans hl)
    refine ⟨fun i slot hi hslot => ?_, fun hother => hnames.passes ?_⟩
    · obtain ⟨f, hf, hfs, hforward, hreport⟩ := hnames.reported_of_open (hnames.open_of_unbound hi hslot)
      obtain ⟨b, hb⟩ := Patch.isOutput_of_canForward hforward
      have hid : (p.analysis r time).patch.blockId f.block = b.id := by
        rw [Normalized.blockId, show (p.analysis r time).patch.block? f.block = some b from hb.block]
        rfl
      rw [hid] at hreport
      exact ⟨e.lowered, hlowered, f, hf, hfs, b, hb, _, List.mem_append_right _ hreport, rfl, rfl⟩
    · refine List.any_eq_false.2 fun d hd herror => ?_
      have hmem := List.mem_append_right (e.afterBlocks.diagnostics ++ e.afterBuses.diagnostics) hd
      exact (hremarks d hmem).ne_unverified (hother d hmem herror)
  · refine ⟨fun l hl => ?_, fun d hd => (hrefused d hd).ne_unverified⟩
    cases hnone.symm.trans hl

/-- A delay that starts from no number leaves the slot open that it reads itself from. -/
theorem unbound_slots_reported_delayLoop :
    ∃ l, (compile (delayLoop (.text "x")) .builtin {}).linked = some l
      ∧ (∃ slot, l.program.slots[1]? = some slot ∧ slot.source = .unbound)
      ∧ (∃ id port, ∃ d ∈ (compile (delayLoop (.text "x")) .builtin {}).diagnostics,
        d.code = some .missingOutput ∧ d.locator = .port id port)
      ∧ ∀ d ∈ (compile (delayLoop (.text "x")) .builtin {}).diagnostics, d.code ≠ some .unverified := by
  have hlinked : (compile (delayLoop (.text "x")) .builtin {}).linked.any
      (fun l => l.program.slots[1]?.any (·.source = .unbound)) = true := by
    decide +kernel
  obtain ⟨l, hl, hslot⟩ := (Option.any_eq_true _ _).1 hlinked
  obtain ⟨slot, hi, hslot⟩ := (Option.any_eq_true _ _).1 hslot
  have hslot : slot.source = .unbound := of_decide_eq_true hslot
  obtain ⟨hall, hverified⟩ := unbound_slots_reported .builtin (delayLoop (.text "x")) {}
  obtain ⟨-, -, f, -, -, b, -, d, hd, hcode, hlocator⟩ := (hall l hl).1 1 slot hi hslot
  exact ⟨l, hl, ⟨slot, hi, hslot⟩, ⟨b.id, f.port, d, hd, hcode, hlocator⟩, hverified⟩

end PatchGraph
