import PatchGraph.Proofs.Graph.Links
import PatchGraph.Typing

/-!
# Checked edges

An edge is looked at by several stages, and each finds its ends by itself: the types of the ends, the nodes of the dependency graph, and
the writers of inputs and buses. If nothing is wrong with the types and the edges of a patch, all of them find the same. Every edge has a
conversion, a link at its own place, and is the writer of one destination and of no other (`edges_kept`).
-/

namespace PatchGraph

/-! ## Types of ports -/

/-- The ports on a side of a block. -/
def PortTypes.side (p : PortTypes) : Side → List (String × Option ValueType)
  | .output => p.outputs
  | .input => p.inputs

/-- A port has a type if it is declared and all declared types can be read. -/
theorem isSome_portType? {ports : List (String × Option ValueType)} {port : String} (hport : ∃ x ∈ ports, x.1 = port)
    (htypes : ∀ x ∈ ports, x.2.isSome = true) : (portType? ports port).isSome = true := by
  obtain ⟨x, hx, hname⟩ := hport
  have hfind : (ports.find? (·.1 = port)).isSome = true := List.find?_isSome.2 ⟨x, hx, decide_eq_true hname⟩
  obtain ⟨y, hy⟩ := Option.isSome_iff_exists.1 hfind
  rw [portType?, hy, Option.bind_some]
  exact htypes y (List.mem_of_find?_eq_some hy)

/-- A type declares a port on a side. -/
def BlockDecl.DeclaresOn (d : BlockDecl) (port : String) : Side → Prop
  | .output => ∃ o ∈ d.outputs, o.id = port
  | .input => ∃ i ∈ d.inputs, i.id = port

/-- A block has the ports that it declares on a side. -/
theorem BlockDecl.hasPort_iff {d : BlockDecl} {side : Side} {port : String} : d.hasPort side port = true ↔ d.DeclaresOn port side := by
  cases side with
  | output => simp [hasPort, outputIndex?, DeclaresOn]
  | input => simp [hasPort, inputIndex?, DeclaresOn]

/-- A port that a block has stands in the table of types. -/
theorem BlockDecl.exists_port {d : BlockDecl} {side : Side} {port : String} (h : d.hasPort side port = true) :
    ∃ x ∈ (Typing.portTypes d).side side, x.1 = port := by
  have hdeclares := hasPort_iff.1 h
  cases side with
  | output =>
    obtain ⟨o, ho, hid⟩ := hdeclares
    exact ⟨_, List.mem_map_of_mem ho, hid⟩
  | input =>
    obtain ⟨i, hi, hid⟩ := hdeclares
    exact ⟨_, List.mem_map_of_mem hi, hid⟩

namespace Typing

/-- The ports of a block are those of its declaration. -/
theorem ports?_table (n : Normalized) (r : Registry) (ix : BlockIx) : (table n r).ports? ix = (n.decl? r ix).map portTypes := by
  rw [TypeTable.ports?, table, List.getElem?_map, Normalized.decl?, Normalized.block?]
  cases n.blocks[ix.index]? <;> rfl

/-- The types of the ports of a block come from its declaration. -/
theorem decl_of_ports? {n : Normalized} {r : Registry} {ix : BlockIx} {ports : PortTypes} (h : (table n r).ports? ix = some ports) :
    ∃ b decl, n.block? ix = some b ∧ r.decl? b.type = some decl ∧ ports = portTypes decl := by
  rw [ports?_table] at h
  obtain ⟨decl, hdecl, rfl⟩ := Option.map_eq_some_iff.1 h
  obtain ⟨b, hb, hdecl⟩ := Option.bind_eq_some_iff.1 hdecl
  exact ⟨b, decl, hb, hdecl, rfl⟩

/-- The type of an output is that of the first declared output of its name. -/
theorem declared_of_outputType? {n : Normalized} {r : Registry} {ix : BlockIx} {port : String} {t : ValueType}
    (h : (table n r).outputType? ix port = some t) : ∃ b decl output, n.block? ix = some b ∧ r.decl? b.type = some decl
      ∧ decl.outputs.find? (·.id = port) = some output ∧ ValueType.parse? output.type = some t := by
  obtain ⟨ports, hports, ht⟩ := Option.bind_eq_some_iff.1 h
  obtain ⟨b, decl, hb, hdecl, rfl⟩ := decl_of_ports? hports
  obtain ⟨x, hx, ht⟩ := Option.bind_eq_some_iff.1 ht
  rw [portTypes, List.find?_map] at hx
  obtain ⟨output, houtput, rfl⟩ := Option.map_eq_some_iff.1 hx
  exact ⟨b, decl, output, hb, hdecl, houtput, ht⟩

/-- Only an output that the type of its block declares has a type. -/
theorem exists_output_of_outputType? {n : Normalized} {r : Registry} {ix : BlockIx} {port : String} {t : ValueType}
    (h : (table n r).outputType? ix port = some t) :
    ∃ b decl, n.block? ix = some b ∧ r.decl? b.type = some decl ∧ ∃ output ∈ decl.outputs, output.id = port := by
  obtain ⟨b, decl, output, hb, hdecl, houtput, -⟩ := declared_of_outputType? h
  exact ⟨b, decl, hb, hdecl, output, List.mem_of_find?_eq_some houtput, by simpa using List.find?_some houtput⟩

/-- Where nothing is wrong with a type text it can be read. -/
theorem isSome_parse?_of_silent {locator : Locator} {text : String} (h : typeDiagnostics locator text = []) :
    (ValueType.parse? text).isSome = true := by
  unfold typeDiagnostics at h
  unfold ValueType.parse?
  cases hparse : ValueType.parse text with
  | ok t => rfl
  | error e =>
    rw [hparse] at h
    cases h

/-- A block that nothing is wrong with is of a known type, and the types of its ports can be read. -/
theorem ports_of_silent {r : Registry} {b : Block} (h : blockDiagnostics r b = []) :
    ∃ d, r.decl? b.type = some d ∧ ∀ side, ∀ x ∈ (portTypes d).side side, x.2.isSome = true := by
  unfold blockDiagnostics at h
  cases hd : r.decl? b.type with
  | none =>
    rw [hd] at h
    cases h
  | some d =>
    rw [hd] at h
    obtain ⟨hinputs, houtputs⟩ := List.append_eq_nil_iff.1 h
    refine ⟨d, rfl, ?_⟩
    intro side x hx
    cases side with
    | output =>
      obtain ⟨o, ho, rfl⟩ := List.mem_map.1 hx
      exact isSome_parse?_of_silent (List.flatMap_eq_nil_iff.1 houtputs o ho)
    | input =>
      obtain ⟨i, hi, rfl⟩ := List.mem_map.1 hx
      exact isSome_parse?_of_silent (List.flatMap_eq_nil_iff.1 hinputs i hi)

/-- Where nothing is wrong with a bus its type can be read. -/
theorem isSome_parse?_of_busDiagnostics {b : Bus} (h : busDiagnostics b = []) : (ValueType.parse? b.type).isSome = true := by
  unfold busDiagnostics at h
  unfold ValueType.parse?
  cases hparse : ValueType.parse b.type with
  | ok t => rfl
  | error e =>
    rw [hparse] at h
    cases h

/-- The type at an end of an edge. -/
def endType? (n : Normalized) (t : TypeTable) (side : Side) (e : Endpoint) : Option ValueType :=
  match side with
  | .output => sourceType? n t e
  | .input => targetType? n t e

/-- What the types along an edge are. -/
theorem edgeTyping?_eq_some {n : Normalized} {r : Registry} {t : TypeTable} {e : Edge} {x : EdgeTyping}
    (h : edgeTyping? n r t e = some x) :
    sourceType? n t e.source = some x.source ∧ targetType? n t e.target = some x.target
      ∧ x.adapted = adaptedType r x.source e.adapters ∧ x.adapted.conversion? x.target = some x.conversion := by
  unfold edgeTyping? endTypes? at h
  split at h
  · cases h
  · rename_i u v hends
    split at hends
    · cases hends
    · obtain ⟨s, hs, hends⟩ := Option.bind_eq_some_iff.1 hends
      obtain ⟨w, hw, heq⟩ := Option.map_eq_some_iff.1 hends
      obtain ⟨rfl, rfl⟩ := Prod.mk.inj heq
      split at h
      · obtain ⟨c, hc, rfl⟩ := Option.map_eq_some_iff.1 h
        exact ⟨hs, hw, rfl, hc⟩
      · cases h

end Typing

namespace Normalized

variable {n : Normalized} {r : Registry}

/-- Nothing is wrong with the types and the edges of a patch. -/
structure Checked (n : Normalized) (r : Registry) : Prop where
  types : n.typeDiagnostics r = []
  dependencies : n.dependencyDiagnostics r = []

/-- An end that is a node of the graph is a declared port. -/
theorem hasPort_of_endNode {side : Side} {block port : String} {u : Nat} (hu : n.endNode r side (.port block port) = .ok u)
    {b : BlockIx} {d : BlockDecl} (hb : n.blockIx? block = some b) (hd : n.decl? r b = some d) : d.hasPort side port = true := by
  simp only [endNode, hb, hd] at hu
  split at hu
  · assumption
  · cases hu

namespace Checked

variable (h : n.Checked r)

include h

/-- Every block is of a known type, and the types of its ports can be read. -/
theorem exists_decl {b : BlockIx} (hlt : b.index < n.blocks.length) :
    ∃ d, n.decl? r b = some d ∧ ∀ side, ∀ x ∈ (Typing.portTypes d).side side, x.2.isSome = true := by
  have hblocks := (List.append_eq_nil_iff.1 (List.append_eq_nil_iff.1 h.types).1).1
  obtain ⟨d, hd, hports⟩ := Typing.ports_of_silent (List.flatMap_eq_nil_iff.1 hblocks _ (List.getElem_mem hlt))
  refine ⟨d, ?_, hports⟩
  rw [decl?, block?, List.getElem?_eq_getElem hlt, Option.bind_some, hd]

/-- An end that is at a node has a type. -/
theorem isSome_endType? {side : Side} {e : Endpoint} {u : Nat} (hu : n.endNode r side e = .ok u) :
    (Typing.endType? n (Typing.table n r) side e).isSome = true := by
  cases e with
  | port block port =>
    obtain ⟨b, hb, -⟩ := endNode_port hu
    obtain ⟨d, hd, hports⟩ := h.exists_decl (lt_of_blockIx? hb)
    have hport := isSome_portType? (BlockDecl.exists_port (hasPort_of_endNode hu hb hd)) (hports side)
    cases side with
    | output => simpa [Typing.endType?, Typing.sourceType?, hb, TypeTable.outputType?, Typing.ports?_table, hd, PortTypes.side] using hport
    | input => simpa [Typing.endType?, Typing.targetType?, hb, TypeTable.inputType?, Typing.ports?_table, hd, PortTypes.side] using hport
  | bus id =>
    obtain ⟨b, hb, -⟩ := endNode_bus hu
    have hlt := lt_of_busIx? hb
    have hbuses := (List.append_eq_nil_iff.1 (List.append_eq_nil_iff.1 h.types).1).2
    have hparse := Typing.isSome_parse?_of_busDiagnostics (List.flatMap_eq_nil_iff.1 hbuses _ (List.getElem_mem hlt))
    cases side with
    | output => simpa [Typing.endType?, Typing.sourceType?, hb, TypeTable.busType?, Typing.table, hlt] using hparse
    | input => simpa [Typing.endType?, Typing.targetType?, hb, TypeTable.busType?, Typing.table, hlt] using hparse

/-- Every edge has types along it, with a conversion. -/
theorem exists_typing {e : Edge} (he : e ∈ n.edges) : ∃ x, Typing.edgeTyping? n r (Typing.table n r) e = some x := by
  obtain ⟨u, v, hjoins, hu, hv⟩ := ends_of_silent h.dependencies he
  obtain ⟨s, hs⟩ := Option.isSome_iff_exists.1 (h.isSome_endType? hu)
  obtain ⟨t, ht⟩ := Option.isSome_iff_exists.1 (h.isSome_endType? hv)
  have hends : Typing.endTypes? n (Typing.table n r) e = some (s, t) := by
    simp only [Typing.endType?] at hs ht
    simp [Typing.endTypes?, hjoins, hs, ht]
  have hsilent := List.flatMap_eq_nil_iff.1 (List.append_eq_nil_iff.1 h.types).2 e he
  simp only [Typing.edgeDiagnostics, hends] at hsilent
  split at hsilent
  · rename_i hknown
    split at hsilent
    · rename_i c hc
      exact ⟨⟨s, Typing.adaptedType r s e.adapters, t, c⟩, by simp [Typing.edgeTyping?, hends, hknown, hc]⟩
    · cases hsilent
  · rename_i hunknown
    rw [hsilent] at hunknown
    exact absurd rfl hunknown

end Checked

/-! ## Links at the places of their edges -/

/-- Where nothing is left out, what is kept stays at its place. -/
theorem getElem?_filterMap_of_isSome {α β : Type} {f : α → Option β} {xs : List α} (h : ∀ x ∈ xs, (f x).isSome = true) (i : Nat) :
    (xs.filterMap f)[i]? = xs[i]?.bind f := by
  induction xs generalizing i with
  | nil => rfl
  | cons x rest ih =>
    obtain ⟨hx, hrest⟩ := List.forall_mem_cons.1 h
    obtain ⟨y, hy⟩ := Option.isSome_iff_exists.1 hx
    rw [List.filterMap_cons_some hy]
    cases i with
    | zero => simp [hy]
    | succ i => simpa using ih hrest i

/-- If nothing is wrong with the ends, every edge has a link. -/
theorem isSome_link? (hdeps : n.dependencyDiagnostics r = []) : ∀ x ∈ n.edges.zipIdx, (n.link? r x.1 x.2).isSome = true := by
  rintro ⟨e, i⟩ hx
  obtain ⟨u, v, hlink, -⟩ := exists_link hdeps (List.mem_of_getElem? (List.mem_zipIdx_iff_getElem?.1 hx)) i
  rw [hlink]
  rfl

/-- There are as many links as edges. -/
theorem length_links (hdeps : n.dependencyDiagnostics r = []) : (n.dependencies r).links.length = n.edges.length := by
  have hlength := List.filterMap_length_eq_length.2 (isSome_link? hdeps)
  rwa [List.length_zipIdx] at hlength

/-- The link of an edge is at the place of the edge. -/
theorem getElem?_links (hdeps : n.dependencyDiagnostics r = []) {i : Nat} {e : Edge} (he : n.edges[i]? = some e) :
    (n.dependencies r).links[i]? = n.link? r e i := by
  refine (getElem?_filterMap_of_isSome (isSome_link? hdeps) i).trans ?_
  simp [List.getElem?_zipIdx, he]

/-! ## Destinations -/

end Normalized

/-- Where an edge can lead to: an input of a block, or a bus. -/
inductive Destination where
  | input (b : BlockIx) (port : String)
  | bus (b : BusIx)
  deriving DecidableEq

namespace Normalized

variable (n : Normalized) (r : Registry)

/-- The end of an edge that leads to a destination, if the destination is there. -/
def endpoint? : Destination → Option Endpoint
  | .input b port => (n.block? b).map fun x => .port x.id port
  | .bus b => (n.bus? b).map fun x => .bus x.id

/-- The destination of an edge that leads to an end. -/
def destination? : Endpoint → Option Destination
  | .port block port => (n.blockIx? block).map fun b => .input b port
  | .bus id => (n.busIx? id).map .bus

/-- The node of a destination. -/
def nodeOf : Destination → Nat
  | .input b _ => b.index
  | .bus b => n.blocks.length + b.index

/-- A destination that is declared: an input that the type of its block has, or a bus. -/
def Accepts : Destination → Prop
  | .input b port => ∃ d, n.decl? r b = some d ∧ d.hasPort .input port = true
  | .bus b => (n.bus? b).isSome = true

/-- The writers at a destination: those of the input, or the publishers of the bus. -/
def arrivals : Destination → List Writer
  | .input b port => n.writers b port
  | .bus b => ((n.bus? b).map fun x => n.publishers x.id).getD []

variable {n r}

/-- Destinations have ends of their own. -/
theorem Distinct.destination?_endpoint? (hn : n.Distinct) {x : Destination} {e : Endpoint} (h : n.endpoint? x = some e) :
    n.destination? e = some x := by
  cases x with
  | input b port =>
    obtain ⟨block, hblock, rfl⟩ := Option.map_eq_some_iff.1 h
    have hid := blockId_of_block? hblock
    have hix := hn.blockIx?_blockId (List.getElem?_eq_some_iff.1 hblock).1
    rw [hid] at hix
    simp [destination?, hix]
  | bus b =>
    obtain ⟨bus, hbus, rfl⟩ := Option.map_eq_some_iff.1 h
    simp [destination?, hn.busIx?_id hbus]

/-- The destination of an end is there, and the end leads to it. -/
theorem endpoint?_destination? {x : Destination} {e : Endpoint} (h : n.destination? e = some x) : n.endpoint? x = some e := by
  cases e with
  | port block port =>
    obtain ⟨b, hb, rfl⟩ := Option.map_eq_some_iff.1 h
    obtain ⟨i, hi, rfl⟩ := Option.map_eq_some_iff.1 hb
    obtain ⟨y, hy, rfl⟩ := getElem?_findIdx? hi
    simp [endpoint?, block?, hy]
  | bus id =>
    obtain ⟨b, hb, rfl⟩ := Option.map_eq_some_iff.1 h
    obtain ⟨i, hi, rfl⟩ := Option.map_eq_some_iff.1 hb
    obtain ⟨y, hy, rfl⟩ := getElem?_findIdx? hi
    simp [endpoint?, bus?, hy]

/-- The end of an edge that is at a node leads to a destination at this node, and the destination is declared. -/
theorem Checked.exists_destination (h : n.Checked r) {e : Endpoint} {v : Nat} (hv : n.endNode r .input e = .ok v) :
    ∃ x, n.destination? e = some x ∧ n.Accepts r x ∧ n.nodeOf x = v := by
  cases e with
  | port block port =>
    obtain ⟨b, hb, rfl⟩ := endNode_port hv
    obtain ⟨d, hd, -⟩ := h.exists_decl (lt_of_blockIx? hb)
    exact ⟨.input b port, by simp [destination?, hb], ⟨d, hd, hasPort_of_endNode hv hb hd⟩, rfl⟩
  | bus id =>
    obtain ⟨b, hb, rfl⟩ := endNode_bus hv
    refine ⟨.bus b, by simp [destination?, hb], ?_, rfl⟩
    simp [Accepts, bus?, lt_of_busIx? hb]

/-! ## The writers of an edge -/

/-- The writer of an edge knows the place and the id of the edge. -/
theorem edge?_writerOf? {e : Edge} {i : Nat} {w : Writer} (h : n.writerOf? e i = some w) : w.edge? = some i ∧ w.id = e.id := by
  unfold writerOf? at h
  split at h
  all_goals
    obtain ⟨b, -, rfl⟩ := Option.map_eq_some_iff.1 h
    exact ⟨rfl, rfl⟩

/-- The writer of an edge is the writer of no other. -/
theorem isEdge_writerOf? {e : Edge} {i j : Nat} {w : Writer} (h : n.writerOf? e j = some w) :
    decide (w.edge? = some i) = true ↔ j = i := by
  rw [(edge?_writerOf? h).1, decide_eq_true_iff, Option.some.injEq]

/-- An edge that starts at a node is a writer. -/
theorem exists_writerOf? {e : Edge} {u : Nat} (hu : n.endNode r .output e.source = .ok u) (i : Nat) :
    ∃ w, n.writerOf? e i = some w := by
  cases hsource : e.source with
  | port block port =>
    rw [hsource] at hu
    obtain ⟨b, hb, -⟩ := endNode_port hu
    exact ⟨.wire i e.id b port, by simp [writerOf?, hsource, hb]⟩
  | bus id =>
    rw [hsource] at hu
    obtain ⟨b, hb, -⟩ := endNode_bus hu
    exact ⟨.bus i e.id b, by simp [writerOf?, hsource, hb]⟩

/-- Each place in a list is there once. -/
theorem filter_place_zipIdx {α : Type} (xs : List α) (i k : Nat) :
    ((xs.zipIdx k).filter fun x => x.2 = k + i) = (xs[i]?.map fun x => (x, k + i)).toList := by
  induction xs generalizing i k with
  | nil => rfl
  | cons x rest ih =>
    cases i with
    | zero =>
      have hlater : ((rest.zipIdx (k + 1)).filter fun y => y.2 = k) = [] := by
        rw [List.filter_eq_nil_iff]
        intro y hy
        have hle := List.le_snd_of_mem_zipIdx hy
        simp
        omega
      simp [List.zipIdx_cons, hlater]
    | succ i =>
      have hplace : k + (i + 1) = k + 1 + i := by omega
      have hne : k ≠ k + 1 + i := by omega
      simp [List.zipIdx_cons, hplace, hne, ih i (k + 1)]

/-- An edge leads to the end that it leads to, and to no other. -/
theorem edgesInto_of_edge {i : Nat} {e : Edge} (he : n.edges[i]? = some e) (target : Endpoint) :
    ((n.edgesInto target).filter fun x => x.2 = i) = if e.target = target then [(e, i)] else [] := by
  have hplace := filter_place_zipIdx n.edges i 0
  simp only [Nat.zero_add, he, Option.map_some, Option.toList_some] at hplace
  rw [edgesInto, List.filter_comm, hplace]
  by_cases htarget : e.target = target
  · simp [htarget]
  · simp [htarget]

/-- What is made of the edge at a place, among all that is made of edges. -/
theorem filter_filterMap_place {β : Type} {f : Edge × Nat → Option β} {P : β → Bool} {i : Nat}
    (hf : ∀ x y, f x = some y → (P y = true ↔ x.2 = i)) (xs : List (Edge × Nat)) :
    (xs.filterMap f).filter P = (xs.filter fun x => x.2 = i).filterMap f := by
  rw [List.filter_filterMap, List.filterMap_filter]
  refine List.filterMap_congr fun x _ => ?_
  cases hx : f x with
  | none => simp
  | some y =>
    have hplace := hf x y hx
    by_cases hi : x.2 = i
    · simp [Option.filter, hplace.2 hi, hi]
    · simp [Option.filter, Bool.eq_false_iff.2 (fun h => hi (hplace.1 h)), hi]

/-- The writers of an edge at an input: the edge itself, if it leads there. -/
theorem writers_of_edge {i : Nat} {e : Edge} (he : n.edges[i]? = some e) (b : BlockIx) (port : String) :
    ((n.writers b port).filter fun w => w.edge? = some i)
      = if e.target = .port (n.blockId b) port then (n.writerOf? e i).toList else [] := by
  have hfallback : ((n.fallbackWriter? b port).toList.filter fun w => w.edge? = some i) = [] := by
    rw [List.filter_eq_nil_iff]
    intro w hw
    obtain ⟨d, -, rfl⟩ := Option.map_eq_some_iff.1 (Option.mem_toList.1 hw)
    simp [Writer.edge?]
  have hperm := (List.mergeSort_perm ((n.edgesInto (.port (n.blockId b) port)).filterMap (fun e => n.writerOf? e.1 e.2)
    ++ (n.fallbackWriter? b port).toList) fun x y => (x.order y).isLE).filter fun w => decide (w.edge? = some i)
  rw [List.filter_append, hfallback, List.append_nil,
    filter_filterMap_place fun x w hx => isEdge_writerOf? hx, edgesInto_of_edge he] at hperm
  -- at most one writer is left, so its place in the order does not matter
  by_cases htarget : e.target = .port (n.blockId b) port
  · rw [if_pos htarget] at hperm ⊢
    cases hw : n.writerOf? e i with
    | none =>
      simp only [List.filterMap_cons, hw, List.filterMap_nil] at hperm
      exact List.perm_nil.1 hperm
    | some w =>
      simp only [List.filterMap_cons, hw, List.filterMap_nil] at hperm
      exact List.perm_singleton.1 hperm
  · rw [if_neg htarget] at hperm ⊢
    exact List.perm_nil.1 hperm

/-- The publishers of a bus that are an edge: the edge itself, if it leads there and does not start at a bus. -/
theorem publishers_of_edge {i : Nat} {e : Edge} (he : n.edges[i]? = some e) (hjoins : e.joinsBuses = false) (id : String) :
    ((n.publishers id).filter fun w => w.edge? = some i) = if e.target = .bus id then (n.writerOf? e i).toList else [] := by
  rw [publishers, filter_filterMap_place, edgesInto_of_edge he]
  · by_cases htarget : e.target = .bus id
    · rw [if_pos htarget, if_pos htarget]
      cases hsource : e.source with
      | port block port => cases hw : n.writerOf? e i <;> simp [hsource, hw]
      | bus source => simp [Edge.joinsBuses, hsource, htarget] at hjoins
    · rw [if_neg htarget, if_neg htarget]
      rfl
  · rintro ⟨f, j⟩ w hw
    dsimp only at hw
    split at hw
    · exact isEdge_writerOf? hw
    · cases hw

/-- The writers of an edge at a destination: the edge itself, if it leads there. -/
theorem arrivals_of_edge {i : Nat} {e : Edge} (he : n.edges[i]? = some e) (hjoins : e.joinsBuses = false) {x : Destination}
    {target : Endpoint} (hx : n.endpoint? x = some target) :
    ((n.arrivals x).filter fun w => w.edge? = some i) = if e.target = target then (n.writerOf? e i).toList else [] := by
  cases x with
  | input b port =>
    obtain ⟨block, hblock, rfl⟩ := Option.map_eq_some_iff.1 hx
    have hid := blockId_of_block? hblock
    rw [arrivals, writers_of_edge he, hid]
  | bus b =>
    obtain ⟨bus, hbus, rfl⟩ := Option.map_eq_some_iff.1 hx
    rw [arrivals, hbus, Option.map_some, Option.getD_some, publishers_of_edge he hjoins]

end Normalized

/-- No edge falls between two stages. If nothing is wrong with the types and the edges of a normalized patch, every edge has types along
it with a conversion, its link is the one at its place, and it is one of the writers at one destination: the declared input or the bus
that it leads to. There it is one writer, which starts at the source of the link, and it is no writer of any other input or bus. -/
theorem edges_kept (p : Patch) (r₀ r : Registry) :
    let n := (p.normalize r₀).1
    n.typeDiagnostics r = [] → n.dependencyDiagnostics r = [] →
    (n.typed r).edges.length = n.edges.length ∧ (n.dependencies r).links.length = n.edges.length ∧
    ∀ i e, n.edges[i]? = some e →
      (∃ t, (n.typed r).edges[i]? = some (some t) ∧ t.adapted.conversion? t.target = some t.conversion) ∧
      ∃ l, (n.dependencies r).links[i]? = some l ∧ l.edge = i ∧ l.edgeId = e.id ∧
        ∃ x, n.destination? e.target = some x ∧ n.Accepts r x ∧ n.nodeOf x = l.target ∧
          (∃ w, ((n.arrivals x).filter fun w => w.edge? = some i) = [w] ∧ w.id = e.id ∧ n.writerNode? w = some l.source) ∧
          ∀ y, (n.endpoint? y).isSome = true → y ≠ x → ((n.arrivals y).filter fun w => w.edge? = some i) = [] := by
  intro n htypes hdeps
  have hn : n.Distinct := p.distinct_normalize r₀
  have h : n.Checked r := ⟨htypes, hdeps⟩
  refine ⟨by simp [Normalized.typed], Normalized.length_links hdeps, ?_⟩
  intro i e he
  have hmem := List.mem_of_getElem? he
  obtain ⟨u, v, hlink, hjoins, hu, hv⟩ := Normalized.exists_link hdeps hmem i
  constructor
  · obtain ⟨t, ht⟩ := h.exists_typing hmem
    exact ⟨t, by simp [Normalized.typed, he, ht], (Typing.edgeTyping?_eq_some ht).2.2.2⟩
  · obtain ⟨x, hx, haccepts, hnode⟩ := h.exists_destination hv
    obtain ⟨w, hw⟩ := Normalized.exists_writerOf? hu i
    refine ⟨_, (Normalized.getElem?_links hdeps he).trans hlink, rfl, rfl, x, hx, haccepts, hnode, ⟨w, ?_, ?_, ?_⟩, ?_⟩
    · rw [Normalized.arrivals_of_edge he hjoins (Normalized.endpoint?_destination? hx), if_pos rfl, hw, Option.toList_some]
    · exact (Normalized.edge?_writerOf? hw).2
    · exact Normalized.writerNode?_writerOf? hw hu
    · intro y hy hne
      obtain ⟨target, htarget⟩ := Option.isSome_iff_exists.1 hy
      rw [Normalized.arrivals_of_edge he hjoins htarget, if_neg]
      rintro rfl
      exact hne (Option.some.inj ((hn.destination?_endpoint? htarget).symm.trans hx))

/-- A constant that is published on a bus, and a sine that listens to it. A second block has the id of the constant, and an edge that is
switched off leads nowhere. -/
def relay : Patch where
  blocks := [⟨"s", "Sin", {}, {}⟩, ⟨"a", "Const", {}, {}⟩, ⟨"a", "Nothing", {}, {}⟩]
  edges := [{ id := "e", source := .port "a" "out", target := .bus "k" },
    { id := "e", source := .port "b" "out", target := .bus "l", enabled := false },
    { id := "f", source := .bus "k", target := .port "s" "in" }]
  buses := [{ id := "k", type := "Signal<float>" }]

/-- The first edge publishes the constant on the bus and does not reach the sine; the second reaches the sine only. -/
theorem edges_kept_relay :
    let n := (relay.normalize .builtin).1
    n.typeDiagnostics .builtin = [] ∧ n.dependencyDiagnostics .builtin = [] ∧ (n.dependencies .builtin).links.length = 2 ∧
      (∃ w, ((n.arrivals (.bus ⟨0⟩)).filter fun w => w.edge? = some 0) = [w] ∧ w.id = "e") ∧
      ((n.arrivals (.input ⟨1⟩ "in")).filter fun w => w.edge? = some 0) = [] ∧
      (∃ w, ((n.arrivals (.input ⟨1⟩ "in")).filter fun w => w.edge? = some 1) = [w] ∧ w.id = "f") ∧
      ((n.arrivals (.bus ⟨0⟩)).filter fun w => w.edge? = some 1) = [] := by
  intro n
  have hedges : relay.sortedEdges = relay.edges.filter (·.enabled) := List.mergeSort_of_pairwise (by decide +kernel)
  have hn : n = ⟨relay.sortedBlocks, relay.sortedBuses, relay.edges.filter (·.enabled), {}, []⟩ := by
    show (relay.normalize .builtin).1 = _
    rw [Patch.normalize, hedges]
    decide +kernel
  have hchecks : n.typeDiagnostics .builtin = [] ∧ n.dependencyDiagnostics .builtin = [] := by
    rw [hn]
    decide +kernel
  have hends : n.edges.length = 2 ∧ n.destination? (.bus "k") = some (.bus ⟨0⟩)
      ∧ n.destination? (.port "s" "in") = some (.input ⟨1⟩ "in") ∧ (n.endpoint? (.bus ⟨0⟩)).isSome = true
      ∧ (n.endpoint? (.input ⟨1⟩ "in")).isSome = true := by
    rw [hn]
    decide +kernel
  obtain ⟨htypes, hdeps⟩ := hchecks
  obtain ⟨hlength, hbus, hinput, hhasBus, hhasInput⟩ := hends
  obtain ⟨-, hlinks, hall⟩ := edges_kept relay .builtin .builtin htypes hdeps
  obtain ⟨-, l, -, -, -, x, hx, -, -, ⟨w, hw, hid, -⟩, hother⟩ :=
    hall 0 { id := "e", source := .port "a" "out", target := .bus "k" } (by rw [show (relay.normalize .builtin).1 = n from rfl, hn]; rfl)
  obtain ⟨-, m, -, -, -, y, hy, -, -, ⟨v, hv, hvid, -⟩, hothers⟩ :=
    hall 1 { id := "f", source := .bus "k", target := .port "s" "in" } (by rw [show (relay.normalize .builtin).1 = n from rfl, hn]; rfl)
  obtain rfl := Option.some.inj (hbus.symm.trans hx)
  obtain rfl := Option.some.inj (hinput.symm.trans hy)
  exact ⟨htypes, hdeps, hlinks.trans hlength, ⟨w, hw, hid⟩, hother _ hhasInput (by decide), ⟨v, hv, hvid⟩,
    hothers _ hhasBus (by decide)⟩

end PatchGraph
