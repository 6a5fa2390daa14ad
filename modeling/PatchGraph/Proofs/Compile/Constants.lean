import PatchGraph.Proofs.Compile.Stages
import PatchGraph.Proofs.Program.Growth
import PatchGraph.Proofs.Registry.Loaded

/-!
# Shared constants

Values are made constants one after the other: first the defaults of a patch, when it is normalized, then whatever the program asks for.
Two of them get the same constant if and only if they have the same key, new constants are numbered without a gap, and a constant keeps
its value until the program is finished (`Shared`). What has to be known of a pool for this is what it records of the calls so far
(`Pool.Records`): interning one value keeps it, so normalizing does and so does whatever a builder is asked for (`Request`). A
compilation asks its builder for things and changes it in no other way (`Builder.Reaches`).
-/

namespace PatchGraph

/-- A value that was made a constant, and the constant that it was given. -/
structure Interned where
  value : Value
  constant : ConstId
  deriving DecidableEq

/-- The default of an input as a value that was made a constant. -/
def DefaultSource.interned (d : DefaultSource) : Interned := ⟨d.value, d.constant⟩

/-- Constants were shared: what holds of values that were made constants, in this order, and of the table that has the constants. -/
structure Shared (calls : List Interned) (table : List Value) : Prop where
  /-- Two values got the same constant if and only if they have the same key. -/
  same_iff : ∀ x ∈ calls, ∀ y ∈ calls, x.constant = y.constant ↔ x.value.key = y.value.key
  /-- In the order in which they were first given, the constants are numbered from zero without a gap. -/
  dense : (calls.map (·.constant.index)).eraseDups = List.range table.length
  /-- A constant stands for a value of the key that it was given for. -/
  kept : ∀ x ∈ calls, ∃ v, table[x.constant.index]? = some v ∧ v.key = x.value.key
  /-- No two entries of the table have the same key. -/
  distinct : (table.map Value.key).Nodup

/-! ## Pools -/

/-- A number at the end counts as a first occurrence unless it came before. -/
theorem eraseDups_concat (xs : List Nat) (x : Nat) :
    (xs ++ [x]).eraseDups = if x ∈ xs then xs.eraseDups else xs.eraseDups ++ [x] := by
  rw [List.eraseDups_append]
  split
  · next h => simp [List.removeAll, h]
  · next h => simp [List.removeAll, h, List.eraseDups_cons]

namespace Pool

/-- Two constants whose values have the same key are one. -/
theorem place_unique (p : Pool) {c c' : ConstId} {k : Value.Key} (h : (p.values[c.index]?).map Value.key = some k)
    (h' : (p.values[c'.index]?).map Value.key = some k) : c = c' :=
  Option.some.inj (((p.inverse k c).2 h).symm.trans ((p.inverse k c').2 h'))

/-- No key occurs twice in a pool. -/
theorem nodup_keys (p : Pool) : (p.values.toList.map Value.key).Nodup := by
  have hkey : ∀ i, (p.values.toList.map Value.key)[i]? = (p.values[i]?).map Value.key := fun i => by
    rw [List.getElem?_map, Array.getElem?_toList]
  refine List.nodup_iff_getElem?_ne_getElem?.2 fun i j hij hj heq => ?_
  have hlast := (hkey j).symm.trans (List.getElem?_eq_getElem hj)
  rw [hkey i, hkey j, hlast] at heq
  have hplaces : (⟨i⟩ : ConstId) = ⟨j⟩ := p.place_unique heq hlast
  exact Nat.ne_of_lt hij (congrArg ConstId.index hplaces)

/-- What a pool has of the values that were made constants so far: the constants stand for their keys, and in the order in which they
were first given they are all the constants there are. -/
structure Records (p : Pool) (calls : List Interned) : Prop where
  keys : ∀ x ∈ calls, (p.values[x.constant.index]?).map Value.key = some x.value.key
  order : (calls.map (·.constant.index)).eraseDups = List.range p.values.size

theorem records_empty : Records {} [] := ⟨List.forall_mem_nil _, rfl⟩

variable {p : Pool} {calls : List Interned}

/-- All constants of the pool were given for a value. -/
theorem Records.mem_constants_iff (h : p.Records calls) {i : Nat} : i ∈ calls.map (·.constant.index) ↔ i < p.values.size := by
  rw [← List.mem_eraseDups, h.order, List.mem_range]

/-- A value with a known key gets a constant that was given before, any other the next one. -/
theorem Records.intern (h : p.Records calls) (v : Value) : (p.intern v).2.Records (calls ++ [⟨v, (p.intern v).1⟩]) := by
  obtain ⟨c, hc, heq⟩ | ⟨hnew, heq⟩ := p.intern_cases v
  · rw [heq]
    refine ⟨List.forall_mem_append.2 ⟨h.keys, List.forall_mem_singleton.2 hc⟩, ?_⟩
    obtain ⟨w, hw, -⟩ := Option.map_eq_some_iff.1 hc
    have hgiven := h.mem_constants_iff.2 (Array.getElem?_eq_some_iff.1 hw).1
    rw [List.map_append, List.map_singleton, eraseDups_concat, if_pos hgiven, h.order]
  · rw [heq]
    refine ⟨List.forall_mem_append.2 ⟨fun x hx => ?_, List.forall_mem_singleton.2 ?_⟩, ?_⟩
    · have hlt := h.mem_constants_iff.1 (List.mem_map_of_mem hx)
      rw [add, Array.getElem?_push, if_neg (Nat.ne_of_lt hlt)]
      exact h.keys x hx
    · simp [add]
    · have hfresh := mt h.mem_constants_iff.1 (Nat.lt_irrefl p.values.size)
      rw [List.map_append, List.map_singleton, eraseDups_concat, if_neg hfresh, h.order, add, Array.size_push, List.range_succ]

/-- Constants that a pool records are shared. -/
theorem Records.shared (h : p.Records calls) : Shared calls p.values.toList where
  same_iff x hx y hy := by
    refine ⟨fun hsame => ?_, fun hkey => ?_⟩
    · have hx := h.keys x hx
      rw [hsame, h.keys y hy] at hx
      exact (Option.some.inj hx).symm
    · exact p.place_unique (h.keys x hx) (hkey ▸ h.keys y hy)
  dense := h.order
  kept x hx := by
    rw [Array.getElem?_toList]
    exact Option.map_eq_some_iff.1 (h.keys x hx)
  distinct := p.nodup_keys

/-- Normalizing makes one constant after the other of the defaults. -/
theorem Records.internInputs (h : p.Records calls) (inputs : List Patch.OpenInput) :
    (Patch.internInputs p inputs).1.Records (calls ++ (Patch.internInputs p inputs).2.map DefaultSource.interned) := by
  induction inputs generalizing p calls with
  | nil => exact (List.append_nil calls).symm ▸ h
  | cons i rest ih =>
    have hrest := ih (h.intern i.value)
    rw [List.append_assoc] at hrest
    exact hrest

end Pool

/-- Normalizing records the defaults of a patch. -/
theorem Patch.records_normalize (p : Patch) (r : Registry) :
    (p.normalize r).2.Records ((p.normalize r).1.defaults.map DefaultSource.interned) :=
  Pool.records_empty.internInputs _

/-! ## Requests -/

/-- What a builder can be asked for. -/
inductive Request where
  | intern (v : Value)
  | constant (v : Value) (t : ValueType)
  | state (owner : BlockIx) (init : Value)
  | signal (e : SignalExpr)
  | field (e : FieldExpr)
  | event (e : EventExpr)
  | reserve (t : ValueType)
  | bind (s : SlotId) (source : SlotSource)
  | slotFor (t : ValueType) (source : SlotSource)
  | handle (owner : BlockIx) (kind : HandleKind)
  | renderSink (s : Sink)
  | camera (s : Sink)
  | assert (holds : Bool) (breach : Breach)
  | step (s : ScheduleStep)
  | timeModel (m : TimeModel)

namespace Request

/-- A step that makes no constants. -/
def quietly {α : Type} (m : Build α) : Build (List Interned) := do
  let _ ← m
  return []

/-- Do what is asked for. What is returned are the values that were made constants, each with the constant that shows in the result: the
one that is returned, that of the reference or that of the new state. -/
def serve : Request → Build (List Interned)
  | intern v => return [⟨v, ← Build.intern v⟩]
  | constant v t => do
    match ← Build.constant v t with
    | .const c _ => return [⟨v, c⟩]
    | _ => return []
  | state owner init => do
    let s ← Build.state owner init
    return ((← get).states[s.index]?).toList.map fun cell => ⟨init, cell.init⟩
  | signal e => quietly (Build.signal e)
  | field e => quietly (Build.field e)
  | event e => quietly (Build.event e)
  | reserve t => quietly (Build.reserve t)
  | bind s source => quietly (Build.bind s source)
  | slotFor t source => quietly (Build.slotFor t source)
  | handle owner kind => quietly (Build.handle owner kind)
  | renderSink s => quietly (Build.renderSink s)
  | camera s => quietly (Build.camera s)
  | assert holds x => quietly (Build.assert holds x)
  | step s => quietly (Build.step s)
  | timeModel m => quietly (Build.timeModel m)

/-- Do one thing after the other, and return all values that were made constants. -/
def serveAll : List Request → Build (List Interned)
  | [] => return []
  | q :: rest => do
    let calls ← q.serve
    return calls ++ (← serveAll rest)

/-- Requests are served one after the other. -/
theorem builder_serveAll_append (before after : List Request) (b : Builder) :
    ((serveAll (before ++ after)).run b).2 = ((serveAll after).run ((serveAll before).run b).2).2 := by
  induction before generalizing b with
  | nil => rfl
  | cons q rest ih => exact ih _

variable {b : Builder} {calls : List Interned}

/-- A request adds the constants that it returns to those that the pool records, and touches no other. -/
theorem records_serve (h : b.consts.Records calls) (q : Request) :
    (q.serve.run b).2.consts.Records (calls ++ (q.serve.run b).1) := by
  have hnone : b.consts.Records (calls ++ []) := (List.append_nil calls).symm ▸ h
  cases q with
  | intern v => exact h.intern v
  | constant v t => exact h.intern v
  | state owner init =>
    have hcell : ((serve (.state owner init)).run b).1 = [⟨init, (b.consts.intern init).1⟩] := by
      show ((b.states.push ⟨owner, _⟩)[b.states.size]?).toList.map _ = _
      simp
    rw [hcell]
    exact h.intern init
  | bind s source =>
    have hconsts : ((Build.bind s source).run b).2.consts = b.consts := by
      rw [Build.run_bind]
      cases b.slots[s.index]? <;> rfl
    exact hconsts.symm ▸ hnone
  | assert holds x =>
    obtain ⟨xs, hrun⟩ := Build.run_assert holds x b
    have hconsts : ((Build.assert holds x).run b).2.consts = b.consts := by rw [hrun]
    exact hconsts.symm ▸ hnone
  | _ => exact hnone

/-- A builder records whatever it is asked for. -/
theorem records_serveAll (h : b.consts.Records calls) (requests : List Request) :
    ((serveAll requests).run b).2.consts.Records (calls ++ ((serveAll requests).run b).1) := by
  induction requests generalizing b calls with
  | nil => exact (List.append_nil calls).symm ▸ h
  | cons q rest ih =>
    have hrest := ih (records_serve h q)
    rw [List.append_assoc] at hrest
    exact hrest

end Request

/-! ## Builders that are only asked -/

/-- A builder becomes another one by doing what it is asked for. -/
def Builder.Reaches (b b' : Builder) : Prop := ∃ requests, ((Request.serveAll requests).run b).2 = b'

namespace Builder.Reaches

/-- Requests after requests are requests. -/
theorem trans {b b' b'' : Builder} (h : b.Reaches b') (h' : b'.Reaches b'') : b.Reaches b'' := by
  obtain ⟨before, rfl⟩ := h
  obtain ⟨after, rfl⟩ := h'
  exact ⟨before ++ after, Request.builder_serveAll_append before after b⟩

/-- What is left after a request was reached by requests. -/
theorem serve (b : Builder) (q : Request) : b.Reaches (q.serve.run b).2 := ⟨[q], rfl⟩

end Builder.Reaches

/-- The lowerings and transforms of a registry that are not known by name ask the builder for things and change it in no other way. -/
structure Registry.RequestOnly (r : Registry) : Prop where
  lowerings : ∀ e ∈ r.blocks.values, ∀ run, e.lowering = some (.custom run) →
    ∀ site inputs (b : Builder), b.Reaches ((run site inputs).run.run b).2
  transforms : ∀ kind, ∀ e ∈ (r.transforms kind).values, ∀ run, e.transform = some (.custom run) →
    ∀ v params (b : Builder), b.Reaches ((run v params).run.run b).2

/-- The lowerings and transforms that are known by name do nothing but ask. -/
theorem Registry.Standard.requestOnly {r : Registry} (hr : r.Standard) : r.RequestOnly where
  lowerings _ he run hrun := absurd hrun (hr.lowering_ne_custom he run)
  transforms _ _ he run hrun := absurd hrun (hr.transform_ne_custom he run)

namespace Regime

/-- The regime in which a builder is only asked for things. -/
def asked (start : Builder) : Regime where
  Inv _ b := start.Reaches b
  Le _ _ := True
  Usable _ _ := True
  Bound _ _ := True

variable {α : Type} {start b : Builder} {rs rs' : List SlotId}

/-- A step that only asks keeps to the regime. -/
theorem builds_asked {m : Build α} {Q : α → Builder → Prop} (hb : (asked start).Inv rs b) (hm : b.Reaches (m.run b).2)
    (h : Q (m.run b).1 (m.run b).2) : (asked start).Builds rs' m b Q :=
  ⟨Builder.Reaches.trans hb hm, trivial, h⟩

theorem raw_asked (b : Builder) (v : ValueRef) : (asked start).Raw b v := ⟨fun _ _ => trivial, False.elim⟩

/-- The elementary steps only ask. -/
theorem stateful_asked : (asked start).Stateful where
  refl _ := trivial
  trans _ _ := trivial
  mono _ _ := trivial
  steady := id
  slotType := False.elim
  intern v hb := builds_asked hb (.serve _ (.intern v)) trivial
  signal {_ _ e} hb _ _ _ := builds_asked hb (.serve _ (.signal e)) trivial
  field {_ _ e} hb _ _ := builds_asked hb (.serve _ (.field e)) trivial
  event {_ _ e} hb _ _ := builds_asked hb (.serve _ (.event e)) trivial
  slotFor {_ _ source t} hb _ _ _ := builds_asked hb (.serve _ (.slotFor t source)) trivial
  handle owner kind hb := builds_asked hb (.serve _ (.handle owner kind)) trivial
  renderSink {_ _ s} hb _ _ := builds_asked hb (.serve _ (.renderSink s)) trivial
  camera {_ _ s} hb _ _ := builds_asked hb (.serve _ (.camera s)) trivial
  assert hb _ _ := builds_asked hb (.serve _ (.assert _ _)) trivial
  state owner v hb := builds_asked hb (.serve _ (.state owner v)) trivial
  stateSignal {_ _ e _} hb _ _ := builds_asked hb (.serve _ (.signal e)) trivial

/-- To read a slot is to ask for it. -/
theorem readable_asked {s : SlotId} (hb : (asked start).Inv rs b) : (asked start).Readable rs s b :=
  ⟨trivial, builds_asked hb (.serve _ (.signal (.read s))) trivial, builds_asked hb (.serve _ (.field (.read s))) trivial,
    builds_asked hb (.serve _ (.event (.read s))) trivial⟩

/-- All steps of a registry whose lowerings and transforms only ask keep to the regime. -/
theorem lawful_asked {a : Analysis} (hr : a.registry.RequestOnly) : (asked start).Lawful a :=
  Customs.lawful
    ⟨fun e he run hrun site inputs _ b hb => builds_asked hb (hr.lowerings e he run hrun site inputs b) trivial,
      fun kind e he run hrun v params _ b hb => builds_asked hb (hr.transforms kind e he run hrun v params b) trivial⟩
    stateful_asked id raw_asked readable_asked

/-- To bind a slot is to ask for it. -/
theorem binds_asked : (asked start).Binds where
  mono _ _ := trivial
  bind {_ _ s _ source} hb _ _ _ _ := builds_asked hb (.serve _ (.bind s source)) trivial

end Regime

/-- The builder of an emission is only asked for things, from the constants of the patch on. -/
theorem Analysis.reaches_emission {a : Analysis} (hr : a.registry.RequestOnly) (hbuses : a.types.buses.length = a.patch.buses.length)
    (consts : Pool) (options : Options) : Builder.Reaches { consts } (a.emission consts options).afterLink.builder :=
  (Regime.holds_emission (Regime.lawful_asked hr) (fun t hb => Regime.builds_asked hb (.serve _ (.reserve t)) trivial) Regime.binds_asked
    (fun s hb => Regime.builds_asked hb (.serve _ (.step s)) trivial) options hbuses
    (.serve { consts } (.timeModel a.time.model))).inv

/-- Whatever a builder is asked for after it took over the constants of a patch, the constants of the defaults and of all that was made a
constant since are shared, in the program that it has then. The requests may end anywhere, so this holds all the time. The program of a
compilation is made in this way. -/
theorem constants_shared (p : Patch) (r : Registry) :
    let start : Builder := { consts := (p.normalize r).2 }
    (∀ requests : List Request,
      let made := (Request.serveAll requests).run start
      Shared ((p.normalize r).1.defaults.map DefaultSource.interned ++ made.1) made.2.finish.consts)
    ∧ (r.RequestOnly → ∀ options l, (compile p r options).linked = some l →
      ∃ requests, l.program = ((Request.serveAll requests).run start).2.finish) := by
  intro start
  refine ⟨fun requests => (Request.records_serveAll (p.records_normalize r) requests).shared, fun hr options l hl => ?_⟩
  obtain ⟨time, e, he, rfl, -⟩ := linked_compile hl
  have hreaches : start.Reaches e.afterLink.builder := by
    rw [he]
    exact Analysis.reaches_emission (a := p.analysis r time) hr (List.length_map _) _ options
  have hprogram : e.linked.program = e.afterLink.builder.finish := by
    rw [he]
    exact Analysis.program_emission ..
  obtain ⟨requests, hrequests⟩ := hreaches
  exact ⟨requests, by rw [hrequests, hprogram]⟩

/-- Blocks whose defaults and initial values are easily taken for one another: the integer one and the double one, the two zeros and a
number that is none. -/
def nearNumbers : Patch where
  blocks := [
    { id := "a", type := "Add", defaults := Dict.insert (Dict.insert {} "a" (.int 1)) "b" (.float .one) },
    { id := "d", type := "Delay", params := Dict.insert {} "init" (.float .one), defaults := Dict.insert {} "in" (.float (.neg .zero)) },
    { id := "i", type := "Integrate", params := Dict.insert {} "init" (.float ⟨0x7ff8000000000001⟩) },
    { id := "t", type := "InfiniteTimeRoot" }]

/-- One state starts from a constant of its own, the other from the one that normalizing made of a default. -/
theorem constants_shared_nearNumbers :
    ∃ l, (compile nearNumbers .builtin {}).linked = some l
      ∧ l.program.consts = [.int 1, .float .one, .float (.neg .zero), .float .zero, .float ⟨0x7ff8000000000001⟩]
      ∧ l.program.states.map (·.init) = [⟨4⟩, ⟨1⟩]
      ∧ ∃ calls, Shared ([⟨.int 1, ⟨0⟩⟩, ⟨.float .one, ⟨1⟩⟩, ⟨.float (.neg .zero), ⟨2⟩⟩, ⟨.float .zero, ⟨3⟩⟩] ++ calls)
        l.program.consts := by
  have heval : (nearNumbers.normalize .builtin).1.defaults.map DefaultSource.interned
        = [⟨.int 1, ⟨0⟩⟩, ⟨.float .one, ⟨1⟩⟩, ⟨.float (.neg .zero), ⟨2⟩⟩, ⟨.float .zero, ⟨3⟩⟩]
      ∧ (compile nearNumbers .builtin {}).linked.any (fun l =>
        l.program.consts = [.int 1, .float .one, .float (.neg .zero), .float .zero, .float ⟨0x7ff8000000000001⟩]
          ∧ l.program.states.map (·.init) = [⟨4⟩, ⟨1⟩]) = true := by
    decide +kernel
  obtain ⟨hdefaults, hlinked⟩ := heval
  obtain ⟨l, hl, hprogram⟩ := (Option.any_eq_true _ _).1 hlinked
  obtain ⟨hconsts, hstates⟩ := of_decide_eq_true hprogram
  obtain ⟨hshared, hmade⟩ := constants_shared nearNumbers .builtin
  obtain ⟨requests, hrequests⟩ := hmade Registry.Loaded.builtin.standard.requestOnly {} l hl
  have hcalls := hshared requests
  rw [hdefaults] at hcalls
  refine ⟨l, hl, hconsts, hstates, ((Request.serveAll requests).run { consts := (nearNumbers.normalize .builtin).2 }).1, ?_⟩
  rw [hrequests]
  exact hcalls

end PatchGraph
