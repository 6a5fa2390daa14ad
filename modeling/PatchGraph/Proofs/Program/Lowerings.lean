import PatchGraph.Proofs.Program.Views

/-!
# Lowerings and transforms keep to a regime

All lowerings and transforms that are known by name keep to a regime that the elementary steps keep to, also where they fail, and so
do the steps of an edge in a registry that knows no others (`Registry.Standard`). In a strict regime the outputs of a lowering have the
forms that their declared types ask for (`OutputsFit`). Some lowerings do not look at the type: these keep to a strict regime only if the
type is declared as it should be (`LoweringKind.Truthful`).
-/

namespace PatchGraph

open Regime

variable {R : Regime} {rs : List SlotId} {b : Builder}

/-! ## Outputs and their types -/

/-- Outputs have the forms that their declared types ask for, handles apart; where a constant is asked for, it may be anything. -/
def OutputsFit (declared : List (String × Option ValueType)) (d : Dict ValueRef) : Prop :=
  ∀ e ∈ d.entries, ∀ t, portType? declared e.1 = some t → t.representation = .const ∨ t.Fits e.2 ∨ ∃ h, e.2 = .special h

/-- No output is wrong where there is none. -/
theorem OutputsFit.empty (declared : List (String × Option ValueType)) : OutputsFit declared {} := fun _ he => absurd he List.not_mem_nil

/-- One more output fits if it has the form that its declared type asks for. -/
theorem OutputsFit.insert {declared : List (String × Option ValueType)} {d : Dict ValueRef} {port : String} {v : ValueRef}
    (hd : OutputsFit declared d)
    (hv : ∀ t, portType? declared port = some t → t.representation = .const ∨ t.Fits v ∨ ∃ h, v = .special h) :
    OutputsFit declared (d.insert port v) := by
  intro e he
  rcases Dict.mem_place he with rfl | he
  · exact hv
  · exact hd e he

/-- The value of an output of a type that lives in slots has the form that the type asks for, if it is an expression. -/
theorem OutputsFit.fits {declared : List (String × Option ValueType)} {d : Dict ValueRef} {port : String} {t : ValueType} {v : ValueRef}
    (hd : OutputsFit declared d) (hport : portType? declared port = some t) (ht : t.isSlotted = true) (hv : d.get? port = some v)
    {s : SlotId} (hs : v.slot? = some s) : t.Fits v := by
  rcases hd _ (Dict.mem_entries_of_get? hv) t hport with hconst | hfits | ⟨h, rfl⟩
  · rw [ValueType.isSlotted, hconst] at ht
    cases ht
  · exact hfits
  · cases hs

/-- The type of a port is declared. -/
theorem mem_of_portType? {ports : List (String × Option ValueType)} {port : String} {t : ValueType}
    (h : portType? ports port = some t) : (port, some t) ∈ ports := by
  obtain ⟨⟨name, type⟩, hfind, rfl⟩ := Option.bind_eq_some_iff.1 h
  have hname : name = port := by simpa using List.find?_some hfind
  exact hname ▸ List.mem_of_find?_eq_some hfind

/-- The outputs of a lowering. -/
def Regime.Outputs (R : Regime) (declared : List (String × Option ValueType)) (d : Dict ValueRef) (b : Builder) : Prop :=
  R.RawAll b d ∧ (R.Strict → OutputsFit declared d)

namespace Regime.Outputs

variable {declared : List (String × Option ValueType)} {d : Dict ValueRef} {port : String} {v : ValueRef}

theorem empty (declared : List (String × Option ValueType)) (b : Builder) : R.Outputs declared {} b :=
  ⟨.empty b, fun _ => .empty declared⟩

/-- One more output. -/
theorem insert (hd : R.Outputs declared d b) (hv : R.Raw b v)
    (hfits : R.Strict → ∀ t, portType? declared port = some t → t.representation = .const ∨ t.Fits v ∨ ∃ h, v = .special h) :
    R.Outputs declared (d.insert port v) b :=
  ⟨hd.1.insert port hv, fun hstrict => (hd.2 hstrict).insert (hfits hstrict)⟩

/-- Outputs stay usable when more is built. -/
theorem mono (L : R.Elementary) {b' : Builder} (h : R.Le b b') (hd : R.Outputs declared d b) : R.Outputs declared d b' :=
  ⟨L.rawAll_mono h hd.1, hd.2⟩

/-- A single output that is apt for its declared type. -/
theorem single {t : ValueType} (ht : portType? declared port = some t) (hv : R.Apt t b v) :
    R.Outputs declared (Lower.single port v) b := by
  refine (empty declared b).insert hv.1 fun hstrict u hu => .inr (.inl ?_)
  obtain rfl := Option.some.inj (ht.symm.trans hu)
  exact hv.2 hstrict

/-- A single output that is a handle, whatever its type. -/
theorem handle {h : HandleRef} (hh : R.Usable b (.handle h.id)) : R.Outputs declared (Lower.single port (.special h)) b :=
  (empty declared b).insert (raw_special.2 hh) fun _ _ _ => .inr (.inr ⟨h, rfl⟩)

end Regime.Outputs

/-- The name under which a lowering is known. -/
def Lowering.kind? : Lowering → Option LoweringKind
  | .kind k => some k
  | .custom _ => none

namespace LoweringKind

/-- The form of what a time root gives to an output, whatever the type of the output is. -/
def timeForm? (time : TimeModel) (port : String) : Option Representation :=
  if port = "time" then some .signal
  else if port = "absTime" then some .signal
  else if port = "phase" ∧ time.isCyclic then some .signal
  else if port = "wrap" ∧ time.isCyclic then some .event
  else none

/-- Whether a lowering makes a state. -/
def isStateful : LoweringKind → Bool
  | .delay | .integrate | .sampleHold => true
  | .timeRoot | .const | .identity | .zip _ | .map _ | .domain | .renderSink | .camera => false

/-- The types of the outputs whose form is given by the lowering alone, each with that form. -/
def fixedOutputs (k : LoweringKind) (time : TimeModel) (declared : List (String × Option ValueType)) :
    List (ValueType × Representation) :=
  match k with
  | .timeRoot => declared.filterMap fun (port, type) => (timeForm? time port).bind fun form => type.map fun t => (t, form)
  | .delay | .integrate | .sampleHold => (portType? declared "out").toList.map fun t => (t, .signal)
  | .const | .identity | .zip _ | .map _ | .domain | .renderSink | .camera => []

/-- Outputs whose form is given by the lowering are declared with a type that asks for that form. -/
def Truthful (k : LoweringKind) (time : TimeModel) (declared : List (String × Option ValueType)) : Prop :=
  ∀ x ∈ k.fixedOutputs time declared, x.1.representation = x.2

instance (k : LoweringKind) (time : TimeModel) (declared : List (String × Option ValueType)) : Decidable (k.Truthful time declared) :=
  inferInstanceAs (Decidable (∀ x ∈ k.fixedOutputs time declared, x.1.representation = x.2))

end LoweringKind

/-! ## Parts of lowerings -/

namespace Lower

variable {α β : Type} {P : α → Builder → Prop} {Q : β → Builder → Prop} (L : R.Elementary)

include L

/-- To go on with something that is needed, it is enough to go on where it is there. -/
theorem builds_need_bind {e : LowerError} {o : Option α} {f : α → Lower β} (hb : R.Inv rs b)
    (h : ∀ a, o = some a → R.BuildsExcept rs (f a) b Q) : R.BuildsExcept rs (need e o >>= f) b Q := by
  cases o with
  | none => exact .throw L hb
  | some a => exact h a rfl

/-- Something that is needed is there if there is no failure. -/
theorem builds_need {e : LowerError} {o : Option α} (hb : R.Inv rs b) (h : ∀ a, o = some a → P a b) :
    R.BuildsExcept rs (need e o) b P := by
  cases o with
  | none => exact .throw L hb
  | some a => exact .pure L hb (h a rfl)

/-- The result of a step that is needed is what the step builds. -/
theorem builds_needed {e : LowerError} {step : Build (Option α)} (h : R.Builds rs step b fun o b' => ∀ a ∈ o, P a b') :
    R.BuildsExcept rs (needed e step) b P := by
  refine (BuildsExcept.lift L h).bind L fun o b hb _ ho => ?_
  cases o with
  | none => exact .throw L hb
  | some a => exact .pure L hb (ho a rfl)

/-- To read a number builds nothing. -/
theorem builds_number (hb : R.Inv rs b) (port : String) (v : ValueRef) : R.BuildsExcept rs (number port v) b fun _ _ => True :=
  BuildsExcept.get_bind (builds_need L hb fun _ _ => trivial)

/-- A signal of any kind as an output, with or without a state. -/
theorem builds_signalOutput {e : SignalExpr} (he : R.Builds rs (Build.signal e) b fun x b' => R.Usable b' (.signal x))
    {t : ValueType} (ht : R.Strict → t.representation = .signal) :
    R.BuildsExcept rs (signalOutput e t) b fun v b' => R.Apt t b' v :=
  (BuildsExcept.lift L he).bind L fun _ _ hb _ hx => .lift L (builds_signalValue L hb hx ht)

/-- The output that a field is registered under is apt if its type is that of a field. -/
theorem builds_fieldOutput (hb : R.Inv rs b) {e : FieldExpr} (hread : e.slot? = none) (he : ∀ x ∈ e.names, R.Usable b x)
    {t : ValueType} (ht : R.Strict → t.representation = .field) :
    R.BuildsExcept rs (fieldOutput e t) b fun v b' => R.Apt t b' v :=
  (BuildsExcept.lift L (L.field hb hread he)).bind L fun _ _ hb _ hx => .lift L (builds_fieldValue L hb hx ht)

/-- The output that an event is registered under is apt if its type is that of an event. -/
theorem builds_eventOutput (hb : R.Inv rs b) {e : EventExpr} (hread : e.slot? = none) (he : ∀ x ∈ e.names, R.Usable b x)
    {t : ValueType} (ht : R.Strict → t.representation = .event) :
    R.BuildsExcept rs (eventOutput e t) b fun v b' => R.Apt t b' v :=
  (BuildsExcept.lift L (L.event hb hread he)).bind L fun _ _ hb _ hx => .lift L (builds_eventValue L hb hx ht)

/-- A constant as an output. -/
theorem builds_constantOutput (hb : R.Inv rs b) (v : Value) {t : ValueType} (ht : t.representation = .const) :
    R.BuildsExcept rs (liftM (Build.constant v t) : Lower ValueRef) b fun v b' => R.Apt t b' v := by
  refine .lift L ((L.intern v hb).bind L fun c b' hb' _ hc => .pure L hb' ⟨raw_const.2 hc, fun _ => ?_⟩)
  rw [ValueType.Fits, ht]
  rfl

/-- A single output. -/
theorem builds_single {m : Lower ValueRef} {declared : List (String × Option ValueType)} {port : String} {t : ValueType}
    (ht : portType? declared port = some t) (h : R.BuildsExcept rs m b fun v b' => R.Apt t b' v) :
    R.BuildsExcept rs (do return single port (← m)) b fun d b' => R.Outputs declared d b' :=
  h.bind L fun _ _ hb _ hv => .pure L hb (.single ht hv)

end Lower

/-! ## Lowerings -/

namespace LoweringKind

open Lower

section Plain

variable (L : R.Elementary)

include L

/-- An output of a time root is apt if its type is declared as the time model needs it. -/
theorem builds_timeOutput {time : TimeModel} {port : String} {t : ValueType} {make : Lower ValueRef} (hb : R.Inv rs b)
    (h : timeOutput? time port t = some make) (ht : R.Strict → ∀ form ∈ timeForm? time port, t.representation = form) :
    R.BuildsExcept rs make b fun v b' => R.Apt t b' v := by
  unfold timeOutput? at h
  unfold timeForm? at ht
  by_cases htime : port = "time"
  · rw [if_pos htime] at h ht
    obtain rfl := Option.some.inj h
    exact builds_signalOutput L (L.signal (e := .modelTime) hb rfl rfl nofun) fun hstrict => ht hstrict _ rfl
  rw [if_neg htime] at h ht
  by_cases habsolute : port = "absTime"
  · rw [if_pos habsolute] at h ht
    obtain rfl := Option.some.inj h
    exact builds_signalOutput L (L.signal (e := .absoluteTime) hb rfl rfl nofun) fun hstrict => ht hstrict _ rfl
  rw [if_neg habsolute] at h ht
  by_cases hphase : port = "phase" ∧ time.isCyclic
  · rw [if_pos hphase] at h ht
    obtain rfl := Option.some.inj h
    exact builds_signalOutput L (L.signal (e := .phase) hb rfl rfl nofun) fun hstrict => ht hstrict _ rfl
  rw [if_neg hphase] at h ht
  by_cases hwrap : port = "wrap" ∧ time.isCyclic
  · rw [if_pos hwrap] at h ht
    obtain rfl := Option.some.inj h
    exact builds_eventOutput L hb (e := .wrap) rfl nofun fun hstrict => ht hstrict _ rfl
  · rw [if_neg hwrap] at h
    cases h

omit L in
/-- What a time root can make has a form. -/
theorem timeForm?_of_timeOutput? {time : TimeModel} {port : String} {t : ValueType} {make : Lower ValueRef}
    (h : timeOutput? time port t = some make) : ∃ form, timeForm? time port = some form := by
  unfold timeForm?
  split
  · exact ⟨_, rfl⟩
  split
  · exact ⟨_, rfl⟩
  split
  · exact ⟨_, rfl⟩
  split
  · exact ⟨_, rfl⟩
  · simp_all [timeOutput?]

omit L in
/-- A time root that is declared truthfully declares each output with the form it is made in. -/
theorem Truthful.timeOutput {time : TimeModel} {declared : List (String × Option ValueType)} {port : String} {t : ValueType}
    (h : Truthful .timeRoot time declared) (hport : (port, some t) ∈ declared) : ∀ form ∈ timeForm? time port, t.representation = form := by
  intro form hform
  refine h (t, form) (List.mem_filterMap.2 ⟨_, hport, ?_⟩)
  show (timeForm? time port).bind _ = _
  rw [Option.mem_def.1 hform]
  rfl

/-- The outputs of time, one after the other, those of a suffix of what is declared. -/
theorem builds_timeOutputs {time : TimeModel} {declared : List (String × Option ValueType)}
    (htruthful : R.Strict → Truthful .timeRoot time declared) {outputs : List (String × Option ValueType)}
    (houtputs : ∀ x ∈ outputs, x ∈ declared) {done : Dict ValueRef} (hb : R.Inv rs b) (hdone : R.Outputs declared done b) :
    R.BuildsExcept rs (timeOutputs time outputs done) b fun d b' => R.Outputs declared d b' := by
  induction outputs generalizing b done with
  | nil => exact .pure L hb hdone
  | cons output rest ih =>
    obtain ⟨hport, hrest⟩ := List.forall_mem_cons.1 houtputs
    obtain ⟨port, _ | t⟩ := output
    · exact ih hrest hb hdone
    · rw [timeOutputs]
      split
      · exact ih hrest hb hdone
      · rename_i make hmake
        obtain ⟨form, hform⟩ := timeForm?_of_timeOutput? hmake
        refine (builds_timeOutput L hb hmake fun hstrict => (htruthful hstrict).timeOutput hport).bind L fun v b' hb' hle hv => ?_
        refine ih hrest hb' ((hdone.mono L hle).insert hv.1 fun hstrict u hu => .inr (.inl ?_))
        -- the output may be declared more than once, but always with a type of the same form
        have ht := (htruthful hstrict).timeOutput hport form hform
        have hu := (htruthful hstrict).timeOutput (mem_of_portType? hu) form hform
        have hfits := hv.2 hstrict
        rw [ValueType.Fits, ht] at hfits
        rwa [ValueType.Fits, hu]

/-- To find the value of a constant block builds nothing. -/
theorem builds_constValue (hb : R.Inv rs b) (site : Site) (t : ValueType) :
    R.BuildsExcept rs (constValue site t) b fun _ _ => True := by
  unfold constValue
  split
  · exact .pure L hb trivial
  · exact builds_need L hb fun _ _ => trivial

/-- A constant block makes outputs that fit. -/
theorem builds_lowerConst (hb : R.Inv rs b) (site : Site) :
    R.BuildsExcept rs (lowerConst site) b fun d b' => R.Outputs site.outputs d b' := by
  refine builds_need_bind L hb fun t ht => (builds_constValue L hb site t).bind L fun v b hb _ _ => ?_
  refine (BuildsExcept.lift L (builds_constant L hb v _)).bind L fun c b hb _ hc => ?_
  refine (builds_needed L (typed_coerce L hb hc t)).bind L fun out b hb _ hout => ?_
  exact .pure L hb (.single ht hout.apt)

variable {inputs : Dict ValueRef}

/-- A block that passes its input on makes outputs that fit. -/
theorem builds_lowerIdentity (hb : R.Inv rs b) (hin : R.RawAll b inputs) (site : Site) :
    R.BuildsExcept rs (lowerIdentity site inputs) b fun d b' => R.Outputs site.outputs d b' := by
  refine builds_need_bind L hb fun t ht => builds_need_bind L hb fun v hv => ?_
  refine (builds_needed L (typed_coerce L hb (hin.get hv) t)).bind L fun out b hb _ hout => ?_
  exact .pure L hb (.single ht hout.apt)

/-- A block that combines two inputs makes outputs that fit. -/
theorem builds_lowerZip (hb : R.Inv rs b) (hin : R.RawAll b inputs) (op : Op) (site : Site) :
    R.BuildsExcept rs (lowerZip op site inputs) b fun d b' => R.Outputs site.outputs d b' := by
  refine builds_need_bind L hb fun t ht => builds_need_bind L hb fun v hv => builds_need_bind L hb fun w hw => ?_
  have hv := hin.get hv
  have hw := hin.get hw
  split
  · rename_i hform
    refine (builds_needed L (builds_asSignal L hb hv)).bind L fun x b' hb' hle hx => ?_
    refine (builds_needed L (builds_asSignal L hb' (L.raw_mono hle hw))).bind L fun y b'' hb'' hle' hy => ?_
    have hxy : ∀ z ∈ (SignalExpr.zip op x y).names, R.Usable b'' z :=
      List.forall_mem_cons.2 ⟨L.mono hle' hx, List.forall_mem_singleton.2 hy⟩
    exact builds_single L ht (builds_signalOutput L (L.signal hb'' rfl rfl hxy) fun _ => hform)
  · rename_i hform
    refine (builds_needed L (builds_asField L hb hv)).bind L fun x b' hb' hle hx => ?_
    refine (builds_needed L (builds_asField L hb' (L.raw_mono hle hw))).bind L fun y b'' hb'' hle' hy => ?_
    have hxy : ∀ z ∈ (FieldExpr.zip op x y).names, R.Usable b'' z :=
      List.forall_mem_cons.2 ⟨L.mono hle' hx, List.forall_mem_singleton.2 hy⟩
    exact builds_single L ht (builds_fieldOutput L hb'' rfl hxy fun _ => hform)
  · refine (builds_number L hb "a" v).bind L fun x b hb _ _ => (builds_number L hb "b" w).bind L fun y b hb _ _ => ?_
    exact builds_single L ht (builds_constantOutput L hb _ ‹_›)
  all_goals exact .throw L hb

/-- A block that maps its input makes outputs that fit. -/
theorem builds_lowerMap (hb : R.Inv rs b) (hin : R.RawAll b inputs) (op : Op) (site : Site) :
    R.BuildsExcept rs (lowerMap op site inputs) b fun d b' => R.Outputs site.outputs d b' := by
  refine builds_need_bind L hb fun t ht => builds_need_bind L hb fun v hv => ?_
  have hv := hin.get hv
  split
  · rename_i hform
    refine (builds_needed L (builds_asSignal L hb hv)).bind L fun x b hb _ hx => ?_
    have hx : ∀ z ∈ (SignalExpr.map op x).names, R.Usable b z := List.forall_mem_singleton.2 hx
    exact builds_single L ht (builds_signalOutput L (L.signal hb rfl rfl hx) fun _ => hform)
  · rename_i hform
    refine (builds_needed L (builds_asField L hb hv)).bind L fun x b hb _ hx => ?_
    exact builds_single L ht (builds_fieldOutput L hb (e := .map op x) rfl (List.forall_mem_singleton.2 hx) fun _ => hform)
  · refine (builds_number L hb "in" v).bind L fun x b hb _ _ => ?_
    exact builds_single L ht (builds_constantOutput L hb _ ‹_›)
  all_goals exact .throw L hb

/-- To read a parameter of a block builds nothing. -/
theorem builds_siteNumber (hb : R.Inv rs b) (site : Site) (name : String) (default : Binary64) :
    R.BuildsExcept rs (site.number name default) b fun _ _ => True := by
  unfold Site.number
  split
  · exact .pure L hb trivial
  · exact builds_need L hb fun _ _ => trivial

/-- The trigger of a block is an event that can be used. -/
theorem builds_trigger (hb : R.Inv rs b) (hin : R.RawAll b inputs) :
    R.BuildsExcept rs (trigger inputs) b fun o b' => ∀ e ∈ o, R.Usable b' (.event e) := by
  unfold trigger
  split
  · exact .pure L hb fun e h => absurd h (Option.not_mem_none e)
  · rename_i v hv
    refine (builds_needed L (builds_asEvent L hb (hin.get hv))).bind L fun e b hb _ he => .pure L hb ?_
    exact fun _ h => Option.some.inj h ▸ he

/-- A domain makes outputs that fit: its handle. -/
theorem builds_lowerDomain (hb : R.Inv rs b) (site : Site) :
    R.BuildsExcept rs (lowerDomain site) b fun d b' => R.Outputs site.outputs d b' := by
  refine (builds_siteNumber L hb site "count" .one).bind L fun x b hb _ _ => builds_need_bind L hb fun count _ => ?_
  exact (BuildsExcept.lift L (L.handle _ _ hb)).bind L fun h _ hb _ hh => .pure L hb (.handle (h := .domain h) hh)

/-- A render sink makes outputs that fit: there are none. -/
theorem builds_lowerRenderSink (hb : R.Inv rs b) (hin : R.RawAll b inputs) (site : Site) :
    R.BuildsExcept rs (lowerRenderSink site inputs) b fun d b' => R.Outputs site.outputs d b' := by
  refine (BuildsExcept.lift L (L.handle _ _ hb)).bind L fun h b hb hle hh => ?_
  refine (BuildsExcept.lift L (L.renderSink hb hh (L.rawAll_mono hle hin))).bind L fun _ b hb _ _ => ?_
  exact .pure L hb (.empty site.outputs b)

/-- A camera makes outputs that fit: its handle. -/
theorem builds_lowerCamera (hb : R.Inv rs b) (hin : R.RawAll b inputs) (site : Site) :
    R.BuildsExcept rs (lowerCamera site inputs) b fun d b' => R.Outputs site.outputs d b' := by
  refine (BuildsExcept.lift L (L.handle _ _ hb)).bind L fun h b hb hle hh => ?_
  refine (BuildsExcept.lift L (L.camera hb hh (L.rawAll_mono hle hin))).bind L fun _ b hb hle _ => ?_
  exact .pure L hb (.handle (h := .camera h) (L.mono hle hh))

/-- Every lowering without a state that is known by name keeps to the regime. -/
theorem builds_run_of_stateless (hb : R.Inv rs b) (hin : R.RawAll b inputs) {k : LoweringKind} (hk : k.isStateful = false) (site : Site)
    (htruthful : R.Strict → k.Truthful site.time site.outputs) :
    R.BuildsExcept rs (k.run site inputs) b fun d b' => R.Outputs site.outputs d b' := by
  cases k with
  | timeRoot => exact builds_timeOutputs L htruthful (fun _ h => h) hb (.empty site.outputs b)
  | const => exact builds_lowerConst L hb site
  | identity => exact builds_lowerIdentity L hb hin site
  | zip op => exact builds_lowerZip L hb hin op site
  | map op => exact builds_lowerMap L hb hin op site
  | domain => exact builds_lowerDomain L hb site
  | renderSink => exact builds_lowerRenderSink L hb hin site
  | camera => exact builds_lowerCamera L hb hin site
  | delay | integrate | sampleHold => cases hk

end Plain

section WithStates

variable (L : R.Stateful) {inputs : Dict ValueRef}

include L

/-- A block with a state keeps to the regime if its signal does, which is made of the state and a signal. -/
theorem builds_lowerStateful (hb : R.Inv rs b) (hin : R.RawAll b inputs) (site : Site)
    (htruthful : R.Strict → ∀ t ∈ portType? site.outputs "out", t.representation = .signal)
    {expr : StateId → SignalId → Lower SignalExpr}
    (hexpr : ∀ s x b', R.Inv rs b' → R.Le b b' → R.Usable b' (.state s) → R.Usable b' (.signal x) →
      R.BuildsExcept rs (expr s x) b' fun e b'' => e.state? = some s ∧ ∀ x ∈ e.names, R.Usable b'' x) :
    R.BuildsExcept rs (lowerStateful site inputs expr) b fun d b' => R.Outputs site.outputs d b' := by
  have E := L.toElementary
  refine builds_need_bind E hb fun t ht => (builds_siteNumber E hb site "init" .zero).bind E fun init b₁ hb₁ hle₁ _ => ?_
  refine builds_need_bind E hb₁ fun v hv => ?_
  refine (builds_needed E (builds_asSignal E hb₁ (E.raw_mono hle₁ (hin.get hv)))).bind E fun x b₂ hb₂ hle₂ hx => ?_
  refine (BuildsExcept.lift E (L.state site.block _ hb₂)).bind E fun s b₃ hb₃ hle₃ hs => ?_
  refine (hexpr s x b₃ hb₃ (L.trans (L.trans hle₁ hle₂) hle₃) hs (L.mono hle₃ hx)).bind E fun e b₄ hb₄ _ he => ?_
  exact builds_single E ht (builds_signalOutput E (L.stateSignal hb₄ he.1 he.2) fun hstrict => htruthful hstrict t ht)

/-- Every lowering that is known by name keeps to the regime. -/
theorem builds_run (hb : R.Inv rs b) (hin : R.RawAll b inputs) (k : LoweringKind) (site : Site)
    (htruthful : R.Strict → k.Truthful site.time site.outputs) :
    R.BuildsExcept rs (k.run site inputs) b fun d b' => R.Outputs site.outputs d b' := by
  have hout : R.Strict → k.isStateful = true → ∀ t ∈ portType? site.outputs "out", t.representation = .signal := by
    intro hstrict hk t ht
    refine htruthful hstrict (t, .signal) ?_
    cases k with
    | delay | integrate | sampleHold => exact List.mem_map_of_mem (Option.mem_toList.2 ht)
    | _ => cases hk
  cases k with
  | delay =>
    refine builds_lowerStateful L hb hin site (fun h => hout h rfl) fun s x b' hb' _ hs hx => .pure L.toElementary hb' ⟨rfl, ?_⟩
    exact List.forall_mem_cons.2 ⟨hs, List.forall_mem_singleton.2 hx⟩
  | integrate =>
    refine builds_lowerStateful L hb hin site (fun h => hout h rfl) fun s x b' hb' _ hs hx => .pure L.toElementary hb' ⟨rfl, ?_⟩
    exact List.forall_mem_cons.2 ⟨hs, List.forall_mem_singleton.2 hx⟩
  | sampleHold =>
    refine builds_lowerStateful L hb hin site (fun h => hout h rfl) fun s x b' hb' hle hs hx => ?_
    refine (builds_trigger L.toElementary hb' (L.rawAll_mono hle hin)).bind L.toElementary fun o b'' hb'' hle' ho =>
      .pure L.toElementary hb'' ⟨rfl, ?_⟩
    refine List.forall_mem_cons.2 ⟨L.mono hle' hs, List.forall_mem_cons.2 ⟨L.mono hle' hx, ?_⟩⟩
    exact List.forall_mem_map.2 fun e he => ho e (Option.mem_toList.1 he)
  | _ => exact builds_run_of_stateless L.toElementary hb hin rfl site htruthful

end WithStates

end LoweringKind

/-! ## Transforms -/

namespace TransformRule

variable {v : ValueRef} (L : R.Elementary)

include L

/-- To ask for the type of a value builds nothing and gives that type. -/
theorem builds_typeOf (hb : R.Inv rs b) (v : ValueRef) : R.BuildsOption rs (typeOf v) b fun t b' => b'.typeOf? v = some t :=
  Builds.get_bind (.pure L hb fun _ ht => ht)

/-- To ask for the type of a numeric value builds nothing and gives that type. -/
theorem builds_numericTypeOf (hb : R.Inv rs b) (v : ValueRef) :
    R.BuildsOption rs (numericTypeOf v) b fun t b' => b'.typeOf? v = some t := by
  refine (builds_typeOf L hb v).bind L fun t b hb _ ht => ?_
  split
  · exact .pure L hb ht
  · exact .failure L hb

/-- To read a constant builds nothing. -/
theorem builds_constantNumber (hb : R.Inv rs b) (c : ConstId) : R.BuildsOption rs (constantNumber c) b fun _ _ => True :=
  Builds.get_bind (.pure L hb fun _ _ => trivial)

/-- A step that combines a value with a constant makes a usable value. -/
theorem builds_applyZip (hb : R.Inv rs b) (hv : R.Raw b v) (op : Op) (operand : Binary64) :
    R.BuildsOption rs (applyZip op operand v) b fun w b' => R.Raw b' w := by
  refine (builds_numericTypeOf L hb v).bind L fun t b hb hle ht => ?_
  have hv := L.raw_mono hle hv
  cases v with
  | const c u => exact (builds_constantNumber L hb c).bind L fun _ _ hb _ _ => .lift L (builds_constant L hb _ t)
  | signal e s =>
    have he := (raw_signal.1 hv).1
    refine (BuildsOption.lift L (L.intern _ hb)).bind L fun k b₁ hb₁ hle₁ hk => ?_
    refine (BuildsOption.lift L (L.signal (e := .const k) hb₁ rfl rfl (List.forall_mem_singleton.2 hk))).bind L
      fun y b₂ hb₂ hle₂ hy => ?_
    have hey : ∀ x ∈ (SignalExpr.zip op e y).names, R.Usable b₂ x :=
      List.forall_mem_cons.2 ⟨L.mono (L.trans hle₁ hle₂) he, List.forall_mem_singleton.2 hy⟩
    refine (BuildsOption.lift L (L.signal hb₂ rfl rfl hey)).bind L fun x _ hb _ hx => .lift L ?_
    exact (builds_signalValue L hb hx (hv.representation_eq rfl ht)).raw
  | field e s =>
    have he := (raw_field.1 hv).1
    refine (BuildsOption.lift L (L.intern _ hb)).bind L fun k b₁ hb₁ hle₁ hk => ?_
    refine (BuildsOption.lift L (L.field (e := .const k) hb₁ rfl (List.forall_mem_singleton.2 hk))).bind L
      fun y b₂ hb₂ hle₂ hy => ?_
    have hey : ∀ x ∈ (FieldExpr.zip op e y).names, R.Usable b₂ x :=
      List.forall_mem_cons.2 ⟨L.mono (L.trans hle₁ hle₂) he, List.forall_mem_singleton.2 hy⟩
    refine (BuildsOption.lift L (L.field hb₂ rfl hey)).bind L fun x _ hb _ hx => .lift L ?_
    exact (builds_fieldValue L hb hx (hv.representation_eq rfl ht)).raw
  | event e s => exact .failure L hb
  | special h => exact .failure L hb

/-- A step that maps a value makes a usable value. -/
theorem builds_applyMap (hb : R.Inv rs b) (hv : R.Raw b v) (op : Op) :
    R.BuildsOption rs (applyMap op v) b fun w b' => R.Raw b' w := by
  refine (builds_numericTypeOf L hb v).bind L fun t b hb hle ht => ?_
  have hv := L.raw_mono hle hv
  cases v with
  | const c u => exact (builds_constantNumber L hb c).bind L fun _ _ hb _ _ => .lift L (builds_constant L hb _ t)
  | signal e s =>
    have he := List.forall_mem_singleton.2 (raw_signal.1 hv).1
    exact (BuildsOption.lift L (L.signal (e := .map op e) hb rfl rfl he)).bind L fun _ _ hb _ hx =>
      .lift L (builds_signalValue L hb hx (hv.representation_eq rfl ht)).raw
  | field e s =>
    have he := List.forall_mem_singleton.2 (raw_field.1 hv).1
    exact (BuildsOption.lift L (L.field (e := .map op e) hb rfl he)).bind L fun _ _ hb _ hx =>
      .lift L (builds_fieldValue L hb hx (hv.representation_eq rfl ht)).raw
  | event e s => exact .failure L hb
  | special h => exact .failure L hb

/-- The step from a phase to a number makes a usable value. -/
theorem builds_applyPhaseToFloat (hb : R.Inv rs b) (hv : R.Raw b v) :
    R.BuildsOption rs (applyPhaseToFloat v) b fun w b' => R.Raw b' w := by
  refine (builds_typeOf L hb v).bind L fun t b hb hle ht => ?_
  have hv := L.raw_mono hle hv
  split
  · rename_i hphase
    -- a phase and a plain number have the same representation in every world
    have hform : (t.withDomain .float).representation = t.representation := by
      unfold ValueType.representation ValueType.withDomain
      rw [hphase]
    cases v with
    | const c u => exact .pure L hb (raw_const.2 (raw_const.1 hv))
    | signal e s =>
      exact .lift L (builds_signalValue L hb (raw_signal.1 hv).1 fun h => hform.trans (hv.representation_eq rfl ht h)).raw
    | field e s =>
      exact .lift L (builds_fieldValue L hb (raw_field.1 hv).1 fun h => hform.trans (hv.representation_eq rfl ht h)).raw
    | event e s => exact .failure L hb
    | special h => exact .failure L hb
  · exact .failure L hb

/-- Every transform that is known by name keeps to the regime. -/
theorem builds_run (hb : R.Inv rs b) (hv : R.Raw b v) (r : TransformRule) (params : Dict Value) :
    R.BuildsOption rs (r.run v params) b fun w b' => R.Raw b' w := by
  cases r with
  | toSignal => exact (builds_typeOf L hb v).bind L fun t b hb hle _ => builds_coerce L hb (L.raw_mono hle hv) _
  | toField => exact (builds_typeOf L hb v).bind L fun t b hb hle _ => builds_coerce L hb (L.raw_mono hle hv) _
  | phaseToFloat => exact builds_applyPhaseToFloat L hb hv
  | zip op param default =>
    simp only [run]
    split
    · exact builds_applyZip L hb hv op default
    · split
      · exact .failure L hb
      · exact builds_applyZip L hb hv op _
  | map op => exact builds_applyMap L hb hv op

end TransformRule

/-! ## Registries that know no other lowerings and transforms -/

namespace Registry

/-- All lowerings and transforms of a registry are known by name. -/
structure Standard (r : Registry) : Prop where
  lowerings : ∀ e ∈ r.blocks.values, ∀ l ∈ e.lowering, ∃ k, l = .kind k
  transforms : ∀ kind, ∀ e ∈ (r.transforms kind).values, ∀ t ∈ e.transform, ∃ rule, t = .rule rule

/-- No block of a standard registry has a lowering of its own. -/
theorem Standard.lowering_ne_custom {r : Registry} (hr : r.Standard) {e : BlockEntry} (he : e ∈ r.blocks.values) (run) :
    e.lowering ≠ some (.custom run) := by
  intro hrun
  obtain ⟨k, hk⟩ := hr.lowerings e he _ hrun
  cases hk

/-- No transform of a standard registry has a rule of its own. -/
theorem Standard.transform_ne_custom {r : Registry} (hr : r.Standard) {kind : TransformKind} {e : TransformEntry}
    (he : e ∈ (r.transforms kind).values) (run) : e.transform ≠ some (.custom run) := by
  intro hrun
  obtain ⟨rule, hrule⟩ := hr.transforms kind e he _ hrun
  cases hrule

section Standard

variable {r : Registry} {v : ValueRef} (hr : r.Standard) (L : R.Elementary)

include hr

/-- In a standard registry every lowering is one of the kinds that are known by name. -/
theorem Standard.exists_kind {name : String} {l : Lowering} (hl : (r.block? name).bind (·.lowering) = some l) : ∃ k, l = .kind k := by
  obtain ⟨e, he, hl⟩ := Option.bind_eq_some_iff.1 hl
  exact hr.lowerings e (Dict.mem_values_of_get? he) l hl

include L

/-- In a standard registry a step of an edge makes a usable value, if it makes one. -/
theorem Standard.builds_applyStep (hb : R.Inv rs b) (hv : R.Raw b v) (kind : TransformKind) (s : Step) :
    R.Builds rs (r.applyStep kind s v) b fun o b' => ∀ w ∈ o, R.Raw b' w := by
  unfold applyStep
  split
  · exact .pure_none L hb
  · rename_i t ht
    obtain ⟨e, he, ht⟩ := Option.bind_eq_some_iff.1 ht
    obtain ⟨rule, rfl⟩ := hr.transforms kind e (Dict.mem_values_of_get? he) t ht
    exact rule.builds_run L hb hv s.params

end Standard

section Steps

variable {r : Registry} (L : R.Elementary)
  (hstep : ∀ {b v}, R.Inv rs b → R.Raw b v → ∀ kind s, R.Builds rs (r.applyStep kind s v) b fun o b' => ∀ w ∈ o, R.Raw b' w)
  {v : ValueRef}

include L hstep

/-- If each step makes usable values, so do several steps of one kind. -/
theorem builds_applySteps (kind : TransformKind) (steps : List Step) (hb : R.Inv rs b) (hv : R.Raw b v) :
    R.BuildsExcept rs (r.applySteps kind steps v) b fun w b' => R.Raw b' w := by
  induction steps generalizing b v with
  | nil => exact .pure L hb hv
  | cons s rest ih =>
    refine (BuildsExcept.lift L (hstep hb hv kind s)).bind L fun o b hb _ ho => ?_
    cases o with
    | none => exact .throw L hb
    | some w => exact ih hb (ho w rfl)

/-- The steps of an edge keep to a regime if each of them does. -/
theorem builds_applyChain (hb : R.Inv rs b) (hv : R.Raw b v) (e : Edge) :
    R.BuildsExcept rs (r.applyChain e v) b fun w b' => R.Raw b' w :=
  (builds_applySteps L hstep .adapter e.adapters hb hv).bind L fun _ _ hb _ hw => builds_applySteps L hstep .lens e.lenses hb hw

end Steps

/-- In a standard registry the steps of an edge make a usable value, if they make one. -/
theorem Standard.builds_applyChain {r : Registry} (hr : r.Standard) (L : R.Elementary) {v : ValueRef} (hb : R.Inv rs b)
    (hv : R.Raw b v) (e : Edge) : R.BuildsExcept rs (r.applyChain e v) b fun w b' => R.Raw b' w :=
  Registry.builds_applyChain L (fun hb hv kind s => hr.builds_applyStep L hb hv kind s) hb hv e

end Registry

end PatchGraph
