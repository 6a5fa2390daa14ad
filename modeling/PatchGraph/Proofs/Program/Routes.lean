import PatchGraph.Proofs.Program.Lowerings
import PatchGraph.Typing

/-!
# What edges do to the form of a value

The types along an edge are computed from what the adapters on it declare, and the value is computed by what they do. The two agree if
each adapter does to the form of a value what it declares, and lenses leave the form as it is (`Registry.Candid`). Then a value that
passes all steps of an edge has the form of the type after the adapters, and if that type has a conversion to the type of the target,
the value can be taken to it. A handle passes no step and cannot be taken to a type that lives in slots.
-/

namespace PatchGraph

/-! ## Types that live in slots -/

namespace ValueType

/-- A type that lives in slots does so in every world that lives in slots, in the form of that world. -/
theorem representation_withWorld {t : ValueType} (ht : t.isSlotted = true) :
    (t.withWorld .signal).representation = .signal ∧ (t.withWorld .field).representation = .field := by
  unfold isSlotted representation at ht
  unfold withWorld representation
  cases hd : t.domain <;> simp_all

/-- A type that lives in slots keeps its form as a type of numbers. -/
theorem representation_withDomain_float {t : ValueType} (ht : t.isSlotted = true) :
    (t.withDomain .float).representation = t.representation := by
  unfold isSlotted representation at ht
  unfold withDomain representation
  cases hd : t.domain <;> simp_all

/-- The form of a type that lives in slots is given by its world. -/
theorem representation_of_isSlotted {t : ValueType} (ht : t.isSlotted = true) :
    (t.world = .signal ∧ t.representation = .signal) ∨ (t.world = .field ∧ t.representation = .field)
      ∨ (t.world = .event ∧ t.representation = .event) := by
  unfold isSlotted representation at ht
  unfold representation
  cases hd : t.domain <;> cases hw : t.world <;> simp_all

/-- Between types that live in slots, a conversion leads to the same form or from a signal to a field. -/
theorem representation_of_conversion? {t u : ValueType} (h : (t.conversion? u).isSome = true) (ht : t.isSlotted = true)
    (hu : u.isSlotted = true) :
    t.representation = u.representation ∨ (t.representation = .signal ∧ u.representation = .field) := by
  unfold conversion? at h
  rcases representation_of_isSlotted ht with ⟨hw, hr⟩ | ⟨hw, hr⟩ | ⟨hw, hr⟩ <;>
  rcases representation_of_isSlotted hu with ⟨hw', hr'⟩ | ⟨hw', hr'⟩ | ⟨hw', hr'⟩ <;>
  simp_all

end ValueType

namespace Build

variable {α β : Type}

/-- What comes last decides what a step that may fail returns. -/
theorem Returns.bind_option {m : OptionT Build α} {f : α → OptionT Build β} {Q : β → Prop}
    (hf : ∀ x, (f x).run.Returns fun o => ∀ y ∈ o, Q y) : (m >>= f).run.Returns fun o => ∀ y ∈ o, Q y := by
  rw [OptionT.run_bind]
  refine (Returns.trivial _).bind fun o _ => ?_
  cases o with
  | none => exact .pure fun y hy => absurd hy (Option.not_mem_none y)
  | some x => exact hf x

/-- Nothing is said of what a step that failed returns. -/
theorem returns_error {ε : Type} {e : ε} {Q : β → Prop} : Returns (pure (.error e : Except ε β)) fun x => ∀ y, x = .ok y → Q y :=
  .pure fun _ hy => nomatch hy

theorem returns_failure {Q : β → Prop} : (failure : OptionT Build β).run.Returns fun o => ∀ y ∈ o, Q y :=
  .pure fun y hy => absurd hy (Option.not_mem_none y)

/-- A value can be taken to a type that its own type has a conversion to. -/
theorem returns_coerce_isSome {t u : ValueType} {v : ValueRef} (hconversion : (t.conversion? u).isSome = true)
    (ht : t.isSlotted = true) (hu : u.isSlotted = true) (hv : t.Fits v) : (coerce v u).Returns fun o => o.isSome = true := by
  have hform := ValueType.fits_iff.1 hv
  unfold coerce
  rcases ValueType.representation_of_conversion? hconversion ht hu with hsame | ⟨hsignal, hfield⟩
  · rw [← hsame, hform]
    cases v <;> exact .pure rfl
  · rw [hsignal] at hform
    rw [hfield]
    cases v with
    | signal => exact fun _ => rfl
    | const | field | event | special => cases hform

/-- No handle is a value of a type that lives in slots. -/
theorem returns_coerce_special {h : HandleRef} {t : ValueType} (ht : t.isSlotted = true) :
    (coerce (.special h) t).Returns fun o => o = none := by
  intro b
  refine Option.eq_none_iff_forall_not_mem.2 fun w hw => ?_
  cases returns_coerce_const (v := .special h) rfl ht b w hw

/-- A constant is a value of every type of signals and fields, and of no type of events. -/
theorem returns_coerce_constant {c : ConstId} {u t : ValueType} (ht : t.isSlotted = true) :
    (coerce (.const c u) t).Returns fun o => o.isSome = (t.representation = .signal || t.representation = .field) := by
  unfold ValueType.isSlotted at ht
  unfold coerce
  cases hr : t.representation <;> rw [hr] at ht
  case signal | field | event => exact fun _ => rfl
  all_goals cases ht

/-- What is read from a slot of a type that lives in slots has the form that the type asks for. -/
theorem fits_readSlot {b : Builder} {s : SlotId} {t : ValueType} (hs : b.slotType? s = some t) (ht : t.isSlotted = true) :
    ∃ v, ((readSlot s).run b).1 = some v ∧ t.Fits v := by
  unfold ValueType.isSlotted at ht
  unfold ValueType.Fits
  simp only [readSlot, StateT.run_bind, StateT.run_get, pure_bind, hs]
  cases hr : t.representation <;> rw [hr] at ht
  case signal | field | event => exact ⟨_, rfl, rfl⟩
  all_goals cases ht

end Build

/-! ## Transforms -/

/-- The rule under which a transform is known. -/
def Transform.rule? : Transform → Option TransformRule
  | .rule r => some r
  | .custom _ => none

namespace TransformRule

/-- The form of what a rule makes of an expression of a form. -/
def formAfter : TransformRule → Representation → Representation
  | .toSignal, _ => .signal
  | .toField, _ => .field
  | .phaseToFloat, form | .zip _ _ _, form | .map _, form => form

/-- Whether a rule leaves the form of an expression as it is. -/
def keepsForm : TransformRule → Bool
  | .toSignal | .toField => false
  | .phaseToFloat | .zip _ _ _ | .map _ => true

/-- Whether a rule does to the form of an expression what an effect says. -/
def isDeclaredBy : TransformRule → TypeEffect → Bool
  | .toSignal, effect => effect = { world := some .signal }
  | .toField, effect => effect = { world := some .field }
  | .phaseToFloat, effect => effect = { domain := some .float }
  | .zip _ _ _, effect | .map _, effect => effect = {}

/-- A rule that keeps the form leaves every form as it is. -/
theorem formAfter_of_keepsForm {r : TransformRule} (h : r.keepsForm = true) (form : Representation) : r.formAfter form = form := by
  cases r with
  | toSignal | toField => cases h
  | _ => rfl

/-- The form after a rule is that of the type after its effect. -/
theorem representation_apply {r : TransformRule} {effect : TypeEffect} (h : r.isDeclaredBy effect = true) {t : ValueType}
    (ht : t.isSlotted = true) : (effect.apply t).representation = r.formAfter t.representation := by
  cases r with
  | toSignal =>
    obtain rfl := of_decide_eq_true h
    exact (ValueType.representation_withWorld ht).1
  | toField =>
    obtain rfl := of_decide_eq_true h
    exact (ValueType.representation_withWorld ht).2
  | phaseToFloat =>
    obtain rfl := of_decide_eq_true h
    exact ValueType.representation_withDomain_float ht
  | zip | map =>
    obtain rfl := of_decide_eq_true h
    rfl

/-- An effect that a rule is declared with keeps a type in slots. -/
theorem isSlotted_apply {r : TransformRule} {effect : TypeEffect} (h : r.isDeclaredBy effect = true) {t : ValueType}
    (ht : t.isSlotted = true) : (effect.apply t).isSlotted = true := by
  rw [ValueType.isSlotted, representation_apply h ht]
  cases r with
  | toSignal | toField => rfl
  | phaseToFloat | zip | map => exact ht

/-- To combine a value with a number keeps its form. -/
theorem returns_applyZip (op : Op) (operand : Binary64) (v : ValueRef) :
    (applyZip op operand v).run.Returns fun o => ∀ w ∈ o, w.form = v.form := by
  refine .bind_option fun t => ?_
  cases v with
  | const c u => exact .bind_option fun x b w hw => by cases hw; rfl
  | signal e s => exact .bind_option fun k => .bind_option fun y => .bind_option fun z b w hw => by cases hw; rfl
  | field e s => exact .bind_option fun k => .bind_option fun y => .bind_option fun z b w hw => by cases hw; rfl
  | event e s => exact Build.returns_failure
  | special h => exact Build.returns_failure

/-- To map a value keeps its form. -/
theorem returns_applyMap (op : Op) (v : ValueRef) : (applyMap op v).run.Returns fun o => ∀ w ∈ o, w.form = v.form := by
  refine .bind_option fun t => ?_
  cases v with
  | const c u => exact .bind_option fun x b w hw => by cases hw; rfl
  | signal e s => exact .bind_option fun x b w hw => by cases hw; rfl
  | field e s => exact .bind_option fun x b w hw => by cases hw; rfl
  | event e s => exact Build.returns_failure
  | special h => exact Build.returns_failure

/-- To turn a phase into a number keeps its form. -/
theorem returns_applyPhaseToFloat (v : ValueRef) : (applyPhaseToFloat v).run.Returns fun o => ∀ w ∈ o, w.form = v.form := by
  refine .bind_option fun t => ?_
  split
  · cases v with
    | const | signal | field => exact fun b w hw => by cases hw; rfl
    | event | special => exact Build.returns_failure
  · exact Build.returns_failure

/-- A step that needs the type of a value fails if the value has none. -/
theorem run_typeOf_bind {α : Type} (v : ValueRef) (f : ValueType → Attempt α) (b : Builder) :
    (typeOf v >>= f).run.run b = match b.typeOf? v with
      | none => (none, b)
      | some t => (f t).run.run b := by
  rw [OptionT.run_bind]
  show StateT.run ((b.typeOf? v).elim (pure none) fun t => (f t).run) b = _
  cases b.typeOf? v <;> rfl

/-- No rule applies to a handle. -/
theorem run_special (r : TransformRule) (h : HandleRef) (params : Dict Value) (b : Builder) :
    (r.run (.special h) params).run.run b = (none, b) := by
  have hfail : ∀ {α : Type} (f : ValueType → Attempt α), (typeOf (.special h) >>= f).run.run b = (none, b) :=
    fun f => run_typeOf_bind _ f b
  have hzip : ∀ op operand, (applyZip op operand (.special h)).run.run b = (none, b) := fun op operand => by
    rw [applyZip, numericTypeOf, bind_assoc]
    exact hfail _
  cases r with
  | toSignal | toField | phaseToFloat => exact hfail _
  | zip op param default =>
    simp only [run]
    split
    · exact hzip op default
    · split
      · rfl
      · exact hzip op _
  | map op =>
    rw [run, applyMap, numericTypeOf, bind_assoc]
    exact hfail _

variable {R : Regime} {rs : List SlotId} {b : Builder} {v : ValueRef} {s : SlotId} (hstrict : R.Strict)

include hstrict

/-- In a strict regime an expression that is taken to another world has the form of that world. -/
theorem form_coerce (hv : R.Raw b v) (hs : v.slot? = some s) {t : ValueType} (ht : b.typeOf? v = some t) :
    (∀ w ∈ ((Build.coerce v (t.withWorld .signal)).run b).1, w.form = .signal)
      ∧ ∀ w ∈ ((Build.coerce v (t.withWorld .field)).run b).1, w.form = .field := by
  have hslotted : t.isSlotted = true := by
    rw [ValueType.isSlotted, hv.representation_eq hs ht hstrict]
    cases v with
    | const | special => cases hs
    | _ => rfl
  obtain ⟨hsignal, hfield⟩ := ValueType.representation_withWorld hslotted
  refine ⟨fun w hw => ?_, fun w hw => ?_⟩
  · rw [← ValueType.fits_iff.1 (Build.returns_coerce v _ b w hw), hsignal]
  · rw [← ValueType.fits_iff.1 (Build.returns_coerce v _ b w hw), hfield]

/-- In a strict regime, what a rule makes of an expression has the form that goes with the rule. -/
theorem form_run (hv : R.Raw b v) (hs : v.slot? = some s) (r : TransformRule) (params : Dict Value) :
    ∀ w ∈ ((r.run v params).run.run b).1, w.form = r.formAfter v.form := by
  cases r with
  | toSignal =>
    rw [run, run_typeOf_bind]
    split
    · exact fun w hw => absurd hw (Option.not_mem_none w)
    · exact (form_coerce hstrict hv hs ‹_›).1
  | toField =>
    rw [run, run_typeOf_bind]
    split
    · exact fun w hw => absurd hw (Option.not_mem_none w)
    · exact (form_coerce hstrict hv hs ‹_›).2
  | phaseToFloat => exact returns_applyPhaseToFloat v b
  | zip op param default =>
    simp only [run]
    split
    · exact returns_applyZip op default v b
    · split
      · exact Build.returns_failure b
      · exact returns_applyZip op _ v b
  | map op => exact returns_applyMap op v b

end TransformRule

/-! ## Edges -/

namespace Registry

/-- The transforms of a registry do to the form of a value what is declared of them. -/
structure Candid (r : Registry) : Prop extends r.Standard where
  adapters : ∀ e ∈ r.adapters.values, ∀ rule, e.transform = some (.rule rule) → rule.isDeclaredBy e.decl.effect = true
  lenses : ∀ e ∈ r.lenses.values, ∀ rule, e.transform = some (.rule rule) → rule.keepsForm = true

variable {r : Registry} {R : Regime} {rs : List SlotId} {b : Builder} {v : ValueRef}

/-- The rule of a step that was taken. -/
theorem Standard.exists_rule (hr : r.Standard) {kind : TransformKind} {s : Step} {w : ValueRef}
    (hw : ((r.applyStep kind s v).run b).1 = some w) :
    ∃ e rule, r.transform? kind s.id = some e ∧ e ∈ (r.transforms kind).values ∧ e.transform = some (.rule rule)
      ∧ ((rule.run v s.params).run.run b).1 = some w := by
  unfold applyStep at hw
  split at hw
  · cases hw
  · rename_i t ht
    obtain ⟨e, he, ht⟩ := Option.bind_eq_some_iff.1 ht
    have hmem := Dict.mem_values_of_get? he
    obtain ⟨rule, rfl⟩ := hr.transforms kind e hmem t ht
    exact ⟨e, rule, he, hmem, ht, hw⟩

/-- Steps are taken one after the other, and the first that fails ends the chain. -/
theorem run_applySteps_cons (kind : TransformKind) (s : Step) (rest : List Step) (v : ValueRef) :
    (r.applySteps kind (s :: rest) v).run = (do
      match ← r.applyStep kind s v with
      | none => return .error ⟨kind, s.id⟩
      | some w => (r.applySteps kind rest w).run) := by
  rw [applySteps, ExceptT.run_bind]
  show Except.ok <$> r.applyStep kind s v >>= _ = _
  rw [bind_map_left]
  refine bind_congr fun o => ?_
  cases o <;> rfl

/-- A handle passes no step. -/
theorem Standard.returns_applySteps_special (hr : r.Standard) (kind : TransformKind) (steps : List Step) (h : HandleRef) :
    (r.applySteps kind steps (.special h)).run.Returns fun x => ∀ w, x = .ok w → w = .special h := by
  cases steps with
  | nil => exact .pure fun w hw => (Except.ok.inj hw).symm
  | cons s rest =>
    have hnone : (r.applyStep kind s (.special h)).Returns fun o => o = none := fun b => by
      refine Option.eq_none_iff_forall_not_mem.2 fun w hw => ?_
      obtain ⟨e, rule, -, -, -, hrun⟩ := hr.exists_rule hw
      rw [rule.run_special] at hrun
      cases hrun
    rw [run_applySteps_cons]
    refine hnone.bind fun o ho => ?_
    rw [ho]
    exact Build.returns_error

/-- A handle passes no step, so it comes out as it is or not at all. -/
theorem Standard.returns_applyChain_special (hr : r.Standard) (e : Edge) (h : HandleRef) :
    (r.applyChain e (.special h)).run.Returns fun x => ∀ w, x = .ok w → w = .special h := by
  rw [applyChain, ExceptT.run_bind]
  refine (hr.returns_applySteps_special .adapter e.adapters h).bind fun x hx => ?_
  cases x with
  | error err => exact Build.returns_error
  | ok w =>
    obtain rfl := hx w rfl
    exact hr.returns_applySteps_special .lens e.lenses h

open Regime

variable (hr : r.Candid) (L : R.Elementary) (hstrict : R.Strict)

include hr L hstrict

/-- A step that was taken has made an expression of the form that goes with its rule. -/
theorem Candid.builds_applyStep (hb : R.Inv rs b) (hv : R.Raw b v) {t : ValueType} (ht : t.isSlotted = true) (hfits : t.Fits v)
    (kind : TransformKind) (s : Step) :
    R.Builds rs (r.applyStep kind s v) b fun o b' => ∀ w ∈ o, R.Raw b' w ∧ ∃ e rule, r.transform? kind s.id = some e
      ∧ e ∈ (r.transforms kind).values ∧ e.transform = some (.rule rule) ∧ w.form = rule.formAfter t.representation := by
  obtain ⟨hinv, hle, hraw⟩ := hr.toStandard.builds_applyStep L hb hv kind s
  refine ⟨hinv, hle, fun w hw => ⟨hraw w hw, ?_⟩⟩
  obtain ⟨e, rule, he, hmem, hrule, hrun⟩ := hr.toStandard.exists_rule hw
  obtain ⟨source, hsource⟩ := hfits.source ht
  obtain ⟨slot, hslot⟩ := ValueRef.exists_slot hsource
  refine ⟨e, rule, he, hmem, hrule, ?_⟩
  rw [ValueType.fits_iff.1 hfits]
  exact TransformRule.form_run hstrict hv hslot rule s.params w hrun

/-- What passed adapters has the form of the type after them. -/
theorem Candid.builds_adapters (steps : List Step) {t : ValueType} (ht : t.isSlotted = true) (hb : R.Inv rs b) (hv : R.Typed t b v) :
    R.BuildsExcept rs (r.applySteps .adapter steps v) b fun w b' =>
      R.Typed (Typing.adaptedType r t steps) b' w ∧ (Typing.adaptedType r t steps).isSlotted = true := by
  induction steps generalizing b v t with
  | nil => exact .pure L hb ⟨hv, ht⟩
  | cons s rest ih =>
    refine (BuildsExcept.lift L (hr.builds_applyStep L hstrict hb hv.1 ht hv.2 .adapter s)).bind L fun o b hb _ ho => ?_
    cases o with
    | none => exact .throw L hb
    | some w =>
      obtain ⟨hraw, e, rule, he, hmem, hrule, hform⟩ := ho w rfl
      have hdeclared := hr.adapters e hmem rule hrule
      have hadapted : Typing.adaptedType r t (s :: rest) = Typing.adaptedType r (e.decl.effect.apply t) rest := by
        rw [Typing.adaptedType, List.foldl_cons, he]
        rfl
      rw [hadapted]
      refine ih (TransformRule.isSlotted_apply hdeclared ht) hb ⟨hraw, ValueType.fits_iff.2 ?_⟩
      rw [hform, TransformRule.representation_apply hdeclared ht]

/-- Lenses leave the form as it is. -/
theorem Candid.builds_lenses (steps : List Step) {t : ValueType} (ht : t.isSlotted = true) (hb : R.Inv rs b) (hv : R.Typed t b v) :
    R.BuildsExcept rs (r.applySteps .lens steps v) b fun w b' => R.Typed t b' w := by
  induction steps generalizing b v with
  | nil => exact .pure L hb hv
  | cons s rest ih =>
    refine (BuildsExcept.lift L (hr.builds_applyStep L hstrict hb hv.1 ht hv.2 .lens s)).bind L fun o b hb _ ho => ?_
    cases o with
    | none => exact .throw L hb
    | some w =>
      obtain ⟨hraw, e, rule, -, hmem, hrule, hform⟩ := ho w rfl
      refine ih hb ⟨hraw, ValueType.fits_iff.2 ?_⟩
      rw [hform, TransformRule.formAfter_of_keepsForm (hr.lenses e hmem rule hrule)]

/-- What passed all steps of an edge has the form of the type after the adapters. -/
theorem Candid.builds_applyChain (e : Edge) {t : ValueType} (ht : t.isSlotted = true) (hb : R.Inv rs b) (hv : R.Typed t b v) :
    R.BuildsExcept rs (r.applyChain e v) b fun w b' =>
      R.Typed (Typing.adaptedType r t e.adapters) b' w ∧ (Typing.adaptedType r t e.adapters).isSlotted = true := by
  refine (hr.builds_adapters L hstrict e.adapters ht hb hv).bind L fun w b' hb' _ hw => ?_
  obtain ⟨hinv, hle, hq⟩ := hr.builds_lenses L hstrict e.lenses hw.2 hb' hw.1
  exact ⟨hinv, hle, fun y hy => ⟨hq y hy, hw.2⟩⟩

end Registry

end PatchGraph
