import PatchGraph.Proofs.Graph.Edges
import PatchGraph.Proofs.Patch.Defaults
import PatchGraph.Proofs.Patch.Indices

/-!
# Writers of an input

The writers of an input are listed from the edges of a normalized patch and from the defaults that normalizing attached, and each of the
two looks at the patch by itself. They fit together: the list holds one writer for each edge into the input whose source is there, and
otherwise the default, which is there exactly if no edge leads to the input (`writers_exact`).
-/

namespace PatchGraph

/-! ## The order of writers -/

namespace Writer

/-- The order of writers compares kinds first and ids second. -/
theorem order_eq : order = compareLex (compareOn rank) (compareOn id) := rfl

instance : Std.TransCmp order := by
  rw [order_eq]
  infer_instance

/-- Writers are ordered by rank first, and by the bytes of their ids where the ranks are equal. -/
theorem order_isLE_iff {v w : Writer} :
    (v.order w).isLE = true ↔ v.rank < w.rank ∨ v.rank = w.rank ∧ Text.bytes v.id ≤ Text.bytes w.id :=
  Text.isLE_then_compare_iff

end Writer

namespace Normalized

variable {n : Normalized}

/-- The writers of an input are in order. -/
theorem ordered_writers (n : Normalized) (b : BlockIx) (port : String) :
    (n.writers b port).Pairwise fun v w => v.rank < w.rank ∨ v.rank = w.rank ∧ Text.bytes v.id ≤ Text.bytes w.id :=
  (pairwise_mergeSort_cmp _).imp Writer.order_isLE_iff.1

end Normalized

/-! ## Edges as writers -/

/-- A writer stands for the edge at a place: it has the place and the id of the edge, and it starts at the block or the bus that the edge
starts at. -/
inductive Writer.StandsFor (n : Normalized) (e : Edge) (i : Nat) : Writer → Prop
  | wire {b : BlockIx} {x : Block} {port : String} (hb : n.block? b = some x) (hsource : e.source = .port x.id port) :
    StandsFor n e i (.wire i e.id b port)
  | bus {b : BusIx} {x : Bus} (hb : n.bus? b = some x) (hsource : e.source = .bus x.id) : StandsFor n e i (.bus i e.id b)

/-- An end of an edge is there: a block of that id, whatever its ports are, or a bus. -/
def Patch.HasEnd (p : Patch) : Endpoint → Prop
  | .port block _ => ∃ b ∈ p.blocks, b.id = block
  | .bus id => ∃ b ∈ p.buses, b.id = id

/-- The writer of an edge stands for that edge. -/
theorem Normalized.standsFor_of_writerOf? {n : Normalized} {e : Edge} {i : Nat} {w : Writer} (h : n.writerOf? e i = some w) :
    w.StandsFor n e i := by
  unfold writerOf? at h
  cases hsource : e.source with
  | port block port =>
    rw [hsource] at h
    obtain ⟨b, hb, rfl⟩ := Option.map_eq_some_iff.1 h
    obtain ⟨k, hk, rfl⟩ := Option.map_eq_some_iff.1 hb
    obtain ⟨x, hx, rfl⟩ := getElem?_findIdx? hk
    exact .wire hx hsource
  | bus id =>
    rw [hsource] at h
    obtain ⟨b, hb, rfl⟩ := Option.map_eq_some_iff.1 h
    obtain ⟨k, hk, rfl⟩ := Option.map_eq_some_iff.1 hb
    obtain ⟨x, hx, rfl⟩ := getElem?_findIdx? hk
    exact .bus hx hsource

namespace Patch

variable {p : Patch} {r : Registry}

/-- An edge whose source is there is a writer. -/
theorem exists_writerOf? {e : Edge} (h : p.HasEnd e.source) (i : Nat) : ∃ w, (p.normalize r).1.writerOf? e i = some w := by
  cases hsource : e.source with
  | port block port =>
    rw [hsource] at h
    obtain ⟨x, hx, rfl⟩ := h
    obtain ⟨k, hk⟩ := (p.indexed_blocks r).exists_place hx
    obtain ⟨b, hb, -⟩ := Option.map_eq_some_iff.1 hk
    exact ⟨.wire i e.id b port, by simp [Normalized.writerOf?, hsource, hb]⟩
  | bus id =>
    rw [hsource] at h
    obtain ⟨x, hx, rfl⟩ := h
    obtain ⟨k, hk⟩ := (p.indexed_buses r).exists_place hx
    obtain ⟨b, hb, -⟩ := Option.map_eq_some_iff.1 hk
    exact ⟨.bus i e.id b, by simp [Normalized.writerOf?, hsource, hb]⟩

end Patch

/-! ## Defaults as writers -/

/-- A default is a writer of the input that it was attached to. -/
theorem Normalized.fallback_mem_writers_iff {n : Normalized} {b : BlockIx} {port id : String} {c : ConstId} :
    .fallback id c ∈ n.writers b port ↔ ∃ d, n.default? b port = some d ∧ d.id = id ∧ d.constant = c := by
  rw [mem_writers, fallbackWriter?, Option.map_eq_some_iff]
  constructor
  · rintro (⟨i, e, -, -, hwriter⟩ | ⟨d, hd, heq⟩)
    · cases standsFor_of_writerOf? hwriter
    · obtain ⟨hid, hc⟩ := Writer.fallback.inj heq
      exact ⟨d, hd, hid, hc⟩
  · rintro ⟨d, hd, rfl, rfl⟩
    exact .inr ⟨d, hd, rfl⟩

namespace Patch

variable {p : Patch} {r : Registry} {b : BlockIx} {x : Block} (hx : (p.normalize r).1.block? b = some x) {port : String}

include hx

/-- An input has a default among its writers if and only if it takes one. -/
theorem exists_fallback_iff : (∃ id c, .fallback id c ∈ (p.normalize r).1.writers b port) ↔ ∃ v, p.TakesDefault r x port v := by
  simp only [Normalized.fallback_mem_writers_iff]
  constructor
  · rintro ⟨id, c, d, hd, -⟩
    obtain ⟨-, v, hv, -⟩ := takesDefault_of_default? hx hd
    exact ⟨v, hv⟩
  · rintro ⟨v, hv⟩
    obtain ⟨d, hd⟩ := exists_default? hx hv
    exact ⟨d.id, d.constant, d, hd, rfl, rfl⟩

/-- A default is the only writer. -/
theorem writers_eq_fallback {d : DefaultSource} (hd : (p.normalize r).1.default? b port = some d) :
    (p.normalize r).1.writers b port = [.fallback d.id d.constant] := by
  obtain ⟨-, v, ⟨hopen, -⟩, -⟩ := takesDefault_of_default? hx hd
  have hnone : (p.normalize r).1.edgesInto (.port ((p.normalize r).1.blockId b) port) = [] := by
    rw [Normalized.edgesInto, List.filter_eq_nil_iff, Normalized.blockId_of_block? hx]
    rintro ⟨e, i⟩ he htarget
    obtain ⟨he, henabled⟩ := mem_sortedEdges.1 (List.mem_of_getElem? (List.mem_zipIdx_iff_getElem?.1 he))
    exact hopen e he henabled (of_decide_eq_true htarget)
  rw [Normalized.writers, hnone, Normalized.fallbackWriter?, hd]
  exact List.mergeSort_singleton _

end Patch

/-- The writers of an input of a block. They are ordered by kind, wires before buses before the default, then by id. Each edge into the
input whose source is there is one of them, once, and starts where the edge does. The default is a writer exactly if no enabled edge
leads to the input, the type of the block declares it, and the block or the declaration has a default for it. Then it is the only one,
and its constant holds the default of the block, or else that of the declaration, in the pool that normalizing leaves. -/
theorem writers_exact (p : Patch) (r : Registry) {b : BlockIx} {x : Block} (hx : (p.normalize r).1.block? b = some x) (port : String) :
    let n := (p.normalize r).1
    let ws := n.writers b port
    ws.Pairwise (fun v w => v.rank < w.rank ∨ v.rank = w.rank ∧ Text.bytes v.id ≤ Text.bytes w.id) ∧
    n.edges.Perm (p.edges.filter (·.enabled)) ∧
    (∀ i e, n.edges[i]? = some e → e.target = .port x.id port → p.HasEnd e.source →
      ∃ w, (ws.filter fun w => w.edge? = some i) = [w] ∧ w.StandsFor n e i) ∧
    (∀ w ∈ ws, ∀ i, w.edge? = some i → ∃ e, n.edges[i]? = some e ∧ e.target = .port x.id port ∧ w.StandsFor n e i) ∧
    ((∃ id c, .fallback id c ∈ ws) ↔
      (∀ e ∈ p.edges, e.enabled = true → e.target ≠ .port x.id port) ∧ ∃ d, r.decl? x.type = some d ∧
        (∃ input ∈ d.inputs, input.id = port) ∧
        ((x.defaults.get? port).isSome = true ∨ ∃ input ∈ d.inputs, input.id = port ∧ input.default.isSome = true)) ∧
    ∀ id c, .fallback id c ∈ ws → ws = [.fallback id c] ∧ id = s!"{x.id}.{port}:default" ∧ ∃ v, (p.normalize r).2.get? c = some v ∧
      (x.defaults.get? port = some v ∨ x.defaults.get? port = none ∧
        ∃ d, r.decl? x.type = some d ∧ ∃ input ∈ d.inputs, input.id = port ∧ input.default = some v) := by
  intro n ws
  have hid : n.blockId b = x.id := Normalized.blockId_of_block? hx
  refine ⟨n.ordered_writers b port, p.sortedEdges_perm, ?_, ?_, ?_, ?_⟩
  · intro i e he htarget hsource
    obtain ⟨w, hw⟩ := p.exists_writerOf? hsource i
    refine ⟨w, ?_, Normalized.standsFor_of_writerOf? hw⟩
    rw [Normalized.writers_of_edge he b port, hid, if_pos htarget, hw, Option.toList_some]
  · intro w hw i hedge
    rcases Normalized.mem_writers.1 hw with ⟨j, e, he, htarget, hwriter⟩ | hfallback
    · obtain rfl := Option.some.inj ((Normalized.edge?_writerOf? hwriter).1.symm.trans hedge)
      exact ⟨e, he, hid ▸ htarget, Normalized.standsFor_of_writerOf? hwriter⟩
    · obtain ⟨d, -, rfl⟩ := Option.map_eq_some_iff.1 hfallback
      cases hedge
  · rw [Patch.exists_fallback_iff hx, Patch.exists_takesDefault_iff]
  · intro id c hfallback
    obtain ⟨d, hd, rfl, rfl⟩ := Normalized.fallback_mem_writers_iff.1 hfallback
    obtain ⟨hname, v, hdefault, hv⟩ := Patch.takesDefault_of_default? hx hd
    exact ⟨Patch.writers_eq_fallback hx hd, hname, v, hv, hdefault.value⟩

/-- A sum with a default of its own for one input. An edge from a block that is not there, a bus and a wire lead to the other, and the
only edge to the first is switched off. -/
def fanIn : Patch where
  blocks := [⟨"sum", "Add", {}, Dict.insert {} "b" (.int 2)⟩, ⟨"c", "Const", {}, {}⟩]
  edges := [{ id := "g", source := .port "ghost" "out", target := .port "sum" "a" },
    { id := "l", source := .bus "k", target := .port "sum" "a" },
    { id := "w", source := .port "c" "out", target := .port "sum" "a" },
    { id := "x", source := .port "c" "out", target := .port "sum" "b", enabled := false }]
  buses := [{ id := "k", type := "Signal<float>" }]

/-- The bus and the wire are one writer each of the connected input, which has no default. The other input has nothing but its default. -/
theorem writers_exact_fanIn :
    let n := (fanIn.normalize .builtin).1
    (n.block? ⟨1⟩).map (·.id) = some "sum" ∧
    (∀ i ∈ [1, 2], ∃ w, ((n.writers ⟨1⟩ "a").filter fun w => w.edge? = some i) = [w]) ∧
    (¬∃ id c, .fallback id c ∈ n.writers ⟨1⟩ "a") ∧
    ∃ c, n.writers ⟨1⟩ "b" = [.fallback "sum.b:default" c] ∧ (fanIn.normalize .builtin).2.get? c = some (.int 2) := by
  intro n
  have hedges : fanIn.sortedEdges = fanIn.edges.filter (·.enabled) := List.mergeSort_of_pairwise (by decide +kernel)
  have hblock : n.block? ⟨1⟩ = some ⟨"sum", "Add", {}, Dict.insert {} "b" (.int 2)⟩ := by decide +kernel
  obtain ⟨-, -, hwriters, -, hfallback, -⟩ := writers_exact fanIn .builtin hblock "a"
  obtain ⟨-, -, -, -, hdefault, hvalue⟩ := writers_exact fanIn .builtin hblock "b"
  refine ⟨by rw [hblock]; rfl, ?_, ?_, ?_⟩
  · have hbus : n.edges[1]? = some { id := "l", source := .bus "k", target := .port "sum" "a" } := by
      rw [show n.edges = fanIn.edges.filter (·.enabled) from hedges]
      decide
    have hwire : n.edges[2]? = some { id := "w", source := .port "c" "out", target := .port "sum" "a" } := by
      rw [show n.edges = fanIn.edges.filter (·.enabled) from hedges]
      decide
    obtain ⟨v, hv, -⟩ := hwriters 1 _ hbus rfl ⟨_, List.mem_cons_self, rfl⟩
    obtain ⟨w, hw, -⟩ := hwriters 2 _ hwire rfl ⟨_, List.mem_cons_of_mem _ List.mem_cons_self, rfl⟩
    exact List.forall_mem_cons.2 ⟨⟨v, hv⟩, List.forall_mem_cons.2 ⟨⟨w, hw⟩, List.forall_mem_nil _⟩⟩
  · rw [hfallback]
    rintro ⟨hopen, -⟩
    exact hopen _ List.mem_cons_self rfl rfl
  · have hdeclared : ∃ d, Registry.builtin.decl? "Add" = some d ∧ ∃ input ∈ d.inputs, input.id = "b" := by
      have hany : (Registry.builtin.decl? "Add").any (fun d => d.inputs.any (·.id = "b")) = true := by decide +kernel
      obtain ⟨d, hd, hinput⟩ := (Option.any_eq_true _ _).1 hany
      obtain ⟨input, hinput, hid⟩ := List.any_eq_true.1 hinput
      exact ⟨d, hd, input, hinput, of_decide_eq_true hid⟩
    obtain ⟨d, hd, hinput⟩ := hdeclared
    obtain ⟨id, c, hc⟩ := hdefault.2 ⟨by decide, d, hd, hinput, .inl (by decide)⟩
    obtain ⟨hall, rfl, v, hv, hown | ⟨hnone, -⟩⟩ := hvalue id c hc
    · have hint : v = .int 2 := Option.some.inj (hown.symm.trans (by decide))
      exact ⟨c, hall, hint ▸ hv⟩
    · exact absurd hnone (by decide)

end PatchGraph
