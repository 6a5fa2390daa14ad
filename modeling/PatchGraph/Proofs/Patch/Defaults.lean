import PatchGraph.Proofs.Patch.Canonical
import PatchGraph.Proofs.Program.Growth

/-!
# Default sources

Normalizing gives each input that no edge leads to a source of its own, if the type of its block declares it and if the block or the
declaration has a default for it (`Patch.TakesDefault`). The constant of the source holds that default in the pool that normalizing
leaves (`takesDefault_of_default?`), and every such input has a source (`exists_default?`).
-/

namespace PatchGraph

/-! ## Constants -/

namespace Pool

/-- The constant of a value holds the value. -/
theorem get?_intern (pool : Pool) (v : Value) : (pool.intern v).2.get? (pool.intern v).1 = some v := by
  obtain ⟨c, hc, heq⟩ | ⟨hnew, heq⟩ := pool.intern_cases v
  · obtain ⟨w, hw, hkey⟩ := Option.map_eq_some_iff.1 hc
    rw [heq, get?, hw, Value.key_injective hkey]
  · simp [heq, get?, add]

/-- A constant holds its value also when there are more constants. -/
theorem get?_of_prefix {p q : Pool} (h : p.values.toList <+: q.values.toList) {c : ConstId} {v : Value} (hc : p.get? c = some v) :
    q.get? c = some v := by
  rw [get?, ← Array.getElem?_toList] at hc ⊢
  exact getElem?_of_prefix h hc

end Pool

namespace Patch

/-- A default source of an open input, whose value is in the pool. -/
structure OpenInput.IsSource (i : OpenInput) (pool : Pool) (d : DefaultSource) : Prop where
  id : d.id = s!"{i.blockId}.{i.port}:default"
  block : d.block = i.block
  port : d.port = i.port
  constant : pool.get? d.constant = some i.value

/-- Interning keeps the pool, and its sources are those of the inputs. -/
theorem internInputs_sources (pool : Pool) (inputs : List OpenInput) :
    pool.values.toList <+: (internInputs pool inputs).1.values.toList ∧
      (∀ d ∈ (internInputs pool inputs).2, ∃ i ∈ inputs, i.IsSource (internInputs pool inputs).1 d) ∧
      ∀ i ∈ inputs, ∃ d ∈ (internInputs pool inputs).2, i.IsSource (internInputs pool inputs).1 d := by
  induction inputs generalizing pool with
  | nil => exact ⟨List.prefix_refl _, List.forall_mem_nil _, List.forall_mem_nil _⟩
  | cons i rest ih =>
    obtain ⟨hpool, -⟩ := Build.prefix_intern pool i.value
    obtain ⟨hrest, hinput, hsource⟩ := ih (pool.intern i.value).2
    have hfirst := Pool.get?_of_prefix hrest (pool.get?_intern i.value)
    refine ⟨hpool.trans hrest, List.forall_mem_cons.2 ⟨⟨i, List.mem_cons_self, rfl, rfl, rfl, hfirst⟩, ?_⟩,
      List.forall_mem_cons.2 ⟨⟨_, List.mem_cons_self, rfl, rfl, rfl, hfirst⟩, ?_⟩⟩
    · intro d hd
      obtain ⟨j, hj, hjd⟩ := hinput d hd
      exact ⟨j, List.mem_cons_of_mem _ hj, hjd⟩
    · intro j hj
      obtain ⟨d, hd, hjd⟩ := hsource j hj
      exact ⟨d, List.mem_cons_of_mem _ hd, hjd⟩

/-! ## Open inputs -/

theorem mem_openInputs {r : Registry} {edges : List Edge} {ix : BlockIx} {b : Block} {i : OpenInput} :
    i ∈ openInputs r edges ix b ↔ i.block = ix ∧ i.blockId = b.id ∧ (∀ e ∈ edges, e.target ≠ .port b.id i.port) ∧
      ∃ d, r.decl? b.type = some d ∧ ∃ input ∈ d.inputs, input.id = i.port
        ∧ (b.defaults.get? i.port).or input.default = some i.value := by
  unfold openInputs
  cases hd : r.decl? b.type with
  | none => simp
  | some d =>
    simp only [List.mem_filterMap]
    constructor
    · rintro ⟨input, hinput, h⟩
      by_cases hedge : edges.any (·.target = .port b.id input.id) = true
      · rw [if_pos hedge] at h
        cases h
      · rw [if_neg hedge] at h
        obtain ⟨v, hv, rfl⟩ := Option.map_eq_some_iff.1 h
        refine ⟨rfl, rfl, ?_, d, rfl, input, hinput, rfl, hv⟩
        intro e he htarget
        exact hedge (List.any_eq_true.2 ⟨e, he, decide_eq_true htarget⟩)
    · rcases i with ⟨ix', blockId, port, v⟩
      rintro ⟨rfl, rfl, hedges, d', hd', input, hinput, rfl, hv⟩
      obtain rfl := Option.some.inj hd'
      have hopen : ¬edges.any (·.target = .port b.id input.id) = true := by
        intro hany
        obtain ⟨e, he, htarget⟩ := List.any_eq_true.1 hany
        exact hedges e he (of_decide_eq_true htarget)
      refine ⟨input, hinput, ?_⟩
      rw [if_neg hopen, hv, Option.map_some]

/-- An input of a block takes a default: no enabled edge leads to it, and the type of the block declares an input of that name, for which
the block has a value of its own, or else the declaration. -/
def TakesDefault (p : Patch) (r : Registry) (x : Block) (port : String) (v : Value) : Prop :=
  (∀ e ∈ p.edges, e.enabled = true → e.target ≠ .port x.id port) ∧
    ∃ d, r.decl? x.type = some d ∧ ∃ input ∈ d.inputs, input.id = port ∧ (x.defaults.get? port).or input.default = some v

/-- The default that an input takes is that of the block, or else one that the declaration has for an input of that name. -/
theorem TakesDefault.value {p : Patch} {r : Registry} {x : Block} {port : String} {v : Value} (h : p.TakesDefault r x port v) :
    x.defaults.get? port = some v ∨ x.defaults.get? port = none ∧
      ∃ d, r.decl? x.type = some d ∧ ∃ input ∈ d.inputs, input.id = port ∧ input.default = some v := by
  obtain ⟨-, d, hd, input, hinput, hid, hv⟩ := h
  cases hown : x.defaults.get? port with
  | some w =>
    rw [hown, Option.some_or] at hv
    exact .inl hv
  | none =>
    rw [hown, Option.none_or] at hv
    exact .inr ⟨rfl, d, hd, input, hinput, hid, hv⟩

/-- There is a default to take if the input is open and declared, and the block or some declaration of the input has one. -/
theorem exists_takesDefault_iff {p : Patch} {r : Registry} {x : Block} {port : String} : (∃ v, p.TakesDefault r x port v) ↔
    (∀ e ∈ p.edges, e.enabled = true → e.target ≠ .port x.id port) ∧ ∃ d, r.decl? x.type = some d ∧
      (∃ input ∈ d.inputs, input.id = port) ∧
      ((x.defaults.get? port).isSome = true ∨ ∃ input ∈ d.inputs, input.id = port ∧ input.default.isSome = true) := by
  constructor
  · rintro ⟨v, h⟩
    obtain ⟨hopen, d, hd, input, hinput, hid, -⟩ := id h
    refine ⟨hopen, d, hd, ⟨input, hinput, hid⟩, ?_⟩
    rcases h.value with hown | ⟨-, d', hd', other, hother, hid', hv⟩
    · exact .inl (Option.isSome_iff_exists.2 ⟨v, hown⟩)
    · obtain rfl := Option.some.inj (hd.symm.trans hd')
      exact .inr ⟨other, hother, hid', Option.isSome_iff_exists.2 ⟨v, hv⟩⟩
  · rintro ⟨hopen, d, hd, ⟨input, hinput, hid⟩, hdefault⟩
    cases hown : x.defaults.get? port with
    | some v => exact ⟨v, hopen, d, hd, input, hinput, hid, by rw [hown, Option.some_or]⟩
    | none =>
      rcases hdefault with hsome | ⟨other, hother, hid', hsome⟩
      · rw [hown] at hsome
        cases hsome
      · obtain ⟨v, hv⟩ := Option.isSome_iff_exists.1 hsome
        exact ⟨v, hopen, d, hd, other, hother, hid', by rw [hown, Option.none_or, hv]⟩

/-- The open inputs of a patch. -/
def allOpenInputs (p : Patch) (r : Registry) : List OpenInput :=
  p.sortedBlocks.zipIdx.flatMap fun (b, i) => openInputs r p.sortedEdges ⟨i⟩ b

variable {p : Patch} {r : Registry}

/-- The open inputs are those that take a default. -/
theorem mem_allOpenInputs {i : OpenInput} : i ∈ p.allOpenInputs r ↔
    ∃ x, (p.normalize r).1.block? i.block = some x ∧ i.blockId = x.id ∧ p.TakesDefault r x i.port i.value := by
  have hedges : ∀ x : Block, (∀ e ∈ p.sortedEdges, e.target ≠ .port x.id i.port)
      ↔ ∀ e ∈ p.edges, e.enabled = true → e.target ≠ .port x.id i.port := by
    intro x
    simp only [mem_sortedEdges, and_imp]
  simp only [allOpenInputs, List.mem_flatMap, mem_openInputs, hedges]
  constructor
  · rintro ⟨⟨x, k⟩, hx, hblock, hid, hdefault⟩
    rw [hblock]
    exact ⟨x, List.mem_zipIdx_iff_getElem?.1 hx, hid, hdefault⟩
  · rintro ⟨x, hx, hid, hdefault⟩
    exact ⟨(x, i.block.index), List.mem_zipIdx_iff_getElem?.2 hx, rfl, hid, hdefault⟩

variable {ix : BlockIx} {x : Block} (hx : (p.normalize r).1.block? ix = some x) {port : String}

include hx

/-- A source is named after its input, and its constant holds a default that the input takes. -/
theorem takesDefault_of_default? {d : DefaultSource} (hd : (p.normalize r).1.default? ix port = some d) :
    d.id = s!"{x.id}.{port}:default" ∧ ∃ v, p.TakesDefault r x port v ∧ (p.normalize r).2.get? d.constant = some v := by
  have hnamed := List.find?_some hd
  obtain ⟨hblock, hport⟩ := of_decide_eq_true hnamed
  have hmem : d ∈ (p.normalize r).1.defaults := List.mem_reverse.1 (List.mem_of_find?_eq_some hd)
  obtain ⟨i, hi, hsource⟩ := (internInputs_sources {} (p.allOpenInputs r)).2.1 d hmem
  obtain ⟨y, hy, hid, hdefault⟩ := mem_allOpenInputs.1 hi
  rw [← hsource.block, hblock, hx] at hy
  obtain rfl := Option.some.inj hy
  rw [← hsource.port, hport] at hdefault
  refine ⟨?_, i.value, hdefault, hsource.constant⟩
  rw [hsource.id, hid, ← hsource.port, hport]

/-- An input that takes a default has a source. -/
theorem exists_default? {v : Value} (h : p.TakesDefault r x port v) : ∃ d, (p.normalize r).1.default? ix port = some d := by
  obtain ⟨d, hd, hsource⟩ := (internInputs_sources {} (p.allOpenInputs r)).2.2 ⟨ix, x.id, port, v⟩
    (mem_allOpenInputs.2 ⟨x, hx, rfl, h⟩)
  refine Option.isSome_iff_exists.1 (List.find?_isSome.2 ⟨d, List.mem_reverse.2 hd, ?_⟩)
  exact decide_eq_true ⟨hsource.block, hsource.port⟩

end Patch

end PatchGraph
