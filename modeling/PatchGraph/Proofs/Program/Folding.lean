import PatchGraph.Proofs.Patch.Defaults
import PatchGraph.Proofs.Program.Effects

/-!
# Folding constants

An operation on a constant is carried out at once, and on a signal it becomes an expression. Both have the same value: a constant that is
folded by the lenses of an edge is the number of the signal that the same lenses make of it when it is promoted first, and so it is with
blocks of one operation whose output is a constant or a signal (`folding_agrees`). The number of a signal expression is given by the
constants and operations that it is made of (`Builder.SignalIs`). While the steps of an edge are taken, the constant on one side and
the signal on the other are the same number (`Paired`); a step that fails does so on both sides.
-/

namespace PatchGraph

/-! ## The number of a signal -/

namespace Builder

/-- The number that a constant is. -/
def number? (b : Builder) (c : ConstId) : Option Binary64 := (b.constant? c).bind Value.number?

/-- The number that a signal expression is, if it is made of constants by operations alone. -/
inductive SignalIs (b : Builder) : SignalId → Binary64 → Prop where
  | const {e : SignalId} {c : ConstId} {x : Binary64} (he : b.signals[e.index]? = some (.const c)) (hc : b.number? c = some x) :
    SignalIs b e x
  | map {e a : SignalId} {op : Op} {x : Binary64} (he : b.signals[e.index]? = some (.map op a)) (ha : SignalIs b a x) :
    SignalIs b e (op.fold x .zero)
  | zip {e a a' : SignalId} {op : Op} {x y : Binary64} (he : b.signals[e.index]? = some (.zip op a a')) (ha : SignalIs b a x)
    (ha' : SignalIs b a' y) : SignalIs b e (op.fold x y)

variable {b b' : Builder} {e a a' : SignalId} {c : ConstId} {x y : Binary64}

/-- A signal is one number at most. -/
theorem SignalIs.unique (h : b.SignalIs e x) (h' : b.SignalIs e y) : x = y := by
  induction h generalizing y with
  | const he hc =>
    cases h' with
    | const he' hc' =>
      obtain rfl := SignalExpr.const.inj (Option.some.inj (he.symm.trans he'))
      exact Option.some.inj (hc.symm.trans hc')
    | map he' | zip he' => cases he.symm.trans he'
  | map he _ ih =>
    cases h' with
    | map he' ha' =>
      obtain ⟨rfl, rfl⟩ := SignalExpr.map.inj (Option.some.inj (he.symm.trans he'))
      rw [ih ha']
    | const he' | zip he' => cases he.symm.trans he'
  | zip he _ _ ih ih' =>
    cases h' with
    | zip he' ha ha' =>
      obtain ⟨rfl, rfl, rfl⟩ := SignalExpr.zip.inj (Option.some.inj (he.symm.trans he'))
      rw [ih ha, ih' ha']
    | const he' | map he' => cases he.symm.trans he'

/-- Signals keep their places when more is built. -/
theorem Extends.getElem?_signals (h : b.Extends b') {i : Nat} {expr : SignalExpr} (hi : b.signals[i]? = some expr) :
    b'.signals[i]? = some expr := by
  rw [← Array.getElem?_toList] at hi ⊢
  exact getElem?_of_prefix h.signals hi

/-- Constants keep their numbers when more is built. -/
theorem Extends.number? (h : b.Extends b') (hc : b.number? c = some x) : b'.number? c = some x := by
  obtain ⟨v, hv, hx⟩ := Option.bind_eq_some_iff.1 hc
  exact Option.bind_eq_some_iff.2 ⟨v, Pool.get?_of_prefix h.consts hv, hx⟩

/-- A signal stays the number it is while tables grow. -/
theorem SignalIs.mono (h : b.Extends b') (he : b.SignalIs e x) : b'.SignalIs e x := by
  induction he with
  | const he hc => exact .const (h.getElem?_signals he) (h.number? hc)
  | map he _ ih => exact .map (h.getElem?_signals he) ih
  | zip he _ _ ih ih' => exact .zip (h.getElem?_signals he) ih ih'

end Builder

namespace Build

open Builder

variable {b : Builder} {a a' : SignalId} {c : ConstId} {x y : Binary64}

/-- A signal that is added is found under its name. -/
theorem getElem?_signal (b : Builder) (e : SignalExpr) :
    ((signal e).run b).2.signals[((signal e).run b).1.index]? = some e := by
  show (b.signals.push e)[b.signals.size]? = some e
  simp

/-- A number that is interned is found under its name. -/
theorem number?_intern (b : Builder) (x : Binary64) : ((intern (.float x)).run b).2.number? ((intern (.float x)).run b).1 = some x :=
  Option.bind_eq_some_iff.2 ⟨.float x, Pool.get?_intern b.consts (.float x), rfl⟩

/-- A signal stays the number it is when another one is added. -/
theorem signalIs_signal (ha : b.SignalIs a x) (expr : SignalExpr) : ((signal expr).run b).2.SignalIs a x :=
  ha.mono (extends_pushSignal b expr)

/-- The new signal of a constant is the number of the constant. -/
theorem signalIs_const (hc : b.number? c = some x) : ((signal (.const c)).run b).2.SignalIs ((signal (.const c)).run b).1 x :=
  .const (getElem?_signal b _) ((extends_pushSignal b _).number? hc)

/-- A signal that is mapped has the number that the operation gives. -/
theorem signalIs_map (op : Op) (ha : b.SignalIs a x) :
    ((signal (.map op a)).run b).2.SignalIs ((signal (.map op a)).run b).1 (op.fold x .zero) :=
  .map (getElem?_signal b _) (signalIs_signal ha _)

/-- Signals that are combined have the number that the operation gives. -/
theorem signalIs_zip (op : Op) (ha : b.SignalIs a x) (ha' : b.SignalIs a' y) :
    ((signal (.zip op a a')).run b).2.SignalIs ((signal (.zip op a a')).run b).1 (op.fold x y) :=
  .zip (getElem?_signal b _) (signalIs_signal ha _) (signalIs_signal ha' _)

/-- A signal that is put into a slot is the number it was. -/
theorem signalIs_slotFor (ha : b.SignalIs a x) (t : ValueType) (source : SlotSource) : ((slotFor t source).run b).2.SignalIs a x :=
  ha.mono (extends_pushSlot b ⟨t, source⟩)

end Build

/-! ## Lenses -/

/-- Numbers have a form as signals. -/
theorem ValueType.representation_of_isNumeric {t : ValueType} (h : t.domain.isNumeric = true) :
    (t.withWorld .signal).representation = .signal := by
  unfold representation withWorld
  cases hdomain : t.domain <;> first | rfl | (rw [hdomain] at h; cases h)

/-- A constant and a signal, each of a builder of its own, that are the same number, under types that arithmetic applies to. -/
structure Paired (x : Binary64) (b : Builder) (c : ConstId) (t : ValueType) (b' : Builder) (e : SignalId) (s : SlotId) : Prop where
  numeric : t.domain.isNumeric = true
  number : b.number? c = some x
  typed : ∃ u, b'.typeOf? (.signal e s) = some u ∧ u.domain.isNumeric = true
  signal : b'.SignalIs e x

/-- Two steps make a constant and a signal that are the given number; without one, both fail. -/
inductive Alike : Option Binary64 → Option ValueRef × Builder → Option ValueRef × Builder → Prop where
  | none {b b' : Builder} : Alike none (none, b) (none, b')
  | some {b b' : Builder} {c : ConstId} {t : ValueType} {e : SignalId} {s : SlotId} {x : Binary64} (h : Paired x b c t b' e s) :
    Alike (some x) (some (.const c t), b) (some (.signal e s), b')

namespace TransformRule

variable {b b' : Builder} {c : ConstId} {t u : ValueType} {e : SignalId} {s : SlotId} {x : Binary64}

/-- What a rule of arithmetic makes of a number. The second operand is a parameter, which must be a number if it is given. -/
def number? (params : Dict Value) (x : Binary64) : TransformRule → Option Binary64
  | .zip op param default => ((params.get? param).elim (some default) Value.number?).map (op.fold x)
  | .map op => some (op.fold x .zero)
  | .toSignal | .toField | .phaseToFloat => none

/-- The number of a constant is read without a change to the builder. -/
theorem run_constantNumber_bind {α : Type} (hc : b.number? c = some x) (f : Binary64 → Attempt α) :
    (constantNumber c >>= f).run.run b = (f x).run.run b := by
  rw [OptionT.run_bind]
  show StateT.run ((b.number? c).elim (pure none) fun x => (f x).run) b = _
  rw [hc]
  rfl

/-- A constant that is folded goes with a signal that is the number it is folded to. -/
theorem alike_folded (ht : t.domain.isNumeric = true) (hc : b.number? c = some x) {f : Binary64 → Binary64}
    (hu : u.domain.isNumeric = true) (he : b'.SignalIs e (f x)) :
    Alike (some (f x)) ((do let x ← constantNumber c; Build.constant (.float (f x)) t : Attempt ValueRef).run.run b)
      ((Build.signalValue e u : Attempt ValueRef).run.run b') := by
  rw [run_constantNumber_bind hc]
  exact .some ⟨ht, Build.number?_intern b (f x), ⟨u, Build.slotType?_slotFor b' u _, hu⟩, Build.signalIs_slotFor he u _⟩

/-- A lens that combines a value with a number does the same to a constant and to a signal. -/
theorem alike_applyZip (h : Paired x b c t b' e s) (op : Op) (y : Binary64) :
    Alike (some (op.fold x y)) ((applyZip op y (.const c t)).run.run b) ((applyZip op y (.signal e s)).run.run b') := by
  obtain ⟨u, hs, hu⟩ := h.typed
  rw [applyZip, applyZip, run_numericTypeOf_bind rfl, if_pos h.numeric, run_numericTypeOf_bind hs, if_pos hu]
  -- the operand becomes a constant and then a signal, before the operation is added
  have hy := Build.signalIs_const (Build.number?_intern b' y)
  have hx := Build.signalIs_signal (h.signal.mono (Build.extends_intern b' (.float y))) (.const ((Build.intern (.float y)).run b').1)
  have hzip := Build.signalIs_zip op hx hy
  exact alike_folded h.numeric h.number (f := (op.fold · y)) hu hzip

/-- A lens that maps a value does the same to a constant and to a signal. -/
theorem alike_applyMap (h : Paired x b c t b' e s) (op : Op) :
    Alike (some (op.fold x .zero)) ((applyMap op (.const c t)).run.run b) ((applyMap op (.signal e s)).run.run b') := by
  obtain ⟨u, hs, hu⟩ := h.typed
  rw [applyMap, applyMap, run_numericTypeOf_bind rfl, if_pos h.numeric, run_numericTypeOf_bind hs, if_pos hu]
  exact alike_folded h.numeric h.number (f := (op.fold · .zero)) hu (Build.signalIs_map op h.signal)

/-- A rule that leaves types as they are does to a constant and to a signal what it does to their number. -/
theorem alike_run {r : TransformRule} (hr : r.isDeclaredBy {} = true) (h : Paired x b c t b' e s) (params : Dict Value) :
    Alike (r.number? params x) ((r.run (.const c t) params).run.run b) ((r.run (.signal e s) params).run.run b') := by
  cases r with
  | toSignal | toField | phaseToFloat => exact absurd hr (by decide)
  | map op => exact alike_applyMap h op
  | zip op param default =>
    rw [run, run, number?]
    cases params.get? param with
    | none => exact alike_applyZip h op default
    | some value =>
      dsimp only [Option.elim_some]
      cases value.number? with
      | none => exact .none
      | some operand => exact alike_applyZip h op operand

end TransformRule

/-- Two runs make a constant and a signal, where the constant is the given number and the signal has it as its only value; without a
number, both fail with one error. -/
inductive Agree {ε β : Type} (wrap : ValueRef → β) : Option Binary64 → Except ε β × Builder → Except ε β × Builder → Prop where
  | error {b b' : Builder} (error : ε) : Agree wrap none (.error error, b) (.error error, b')
  | ok {b b' : Builder} {c : ConstId} {t : ValueType} {e : SignalId} {s : SlotId} {x : Binary64} (hc : b.number? c = some x)
    (he : ∀ y, b'.SignalIs e y ↔ y = x) : Agree wrap (some x) (.ok (wrap (.const c t)), b) (.ok (wrap (.signal e s)), b')

/-- A constant and a signal of the same number agree. -/
theorem Agree.of_signalIs {ε β : Type} (wrap : ValueRef → β) {b b' : Builder} {c : ConstId} (t : ValueType) {e : SignalId} (s : SlotId)
    {x : Binary64} (hc : b.number? c = some x) (he : b'.SignalIs e x) :
    Agree (ε := ε) wrap (some x) (.ok (wrap (.const c t)), b) (.ok (wrap (.signal e s)), b') :=
  .ok hc fun _ => ⟨fun hy => hy.unique he, fun hy => hy ▸ he⟩

namespace Registry

variable {r : Registry} {b b' : Builder} {c : ConstId} {t : ValueType} {e : SignalId} {s : SlotId} {x : Binary64}

/-- What a lens makes of a number. -/
def lensNumber? (r : Registry) (x : Binary64) (step : Step) : Option Binary64 :=
  (((r.transform? .lens step.id).bind (·.transform)).bind Transform.rule?).bind (·.number? step.params x)

/-- What lenses make of a number, one after the other. -/
def lensNumbers? (r : Registry) (steps : List Step) (x : Binary64) : Option Binary64 := steps.foldlM r.lensNumber? x

/-- An exact lens does the same to a constant and to a signal. -/
theorem alike_applyStep {step : Step} (hstep : r.IsExact .lens step) (h : Paired x b c t b' e s) :
    Alike (r.lensNumber? x step) ((r.applyStep .lens step (.const c t)).run b) ((r.applyStep .lens step (.signal e s)).run b') := by
  unfold applyStep lensNumber?
  cases hentry : r.transform? .lens step.id with
  | none => exact .none
  | some entry =>
    dsimp only [Option.bind_some]
    cases htransform : entry.transform with
    | none => exact .none
    | some transform =>
      obtain ⟨rule, rfl, hrule⟩ := hstep entry hentry transform htransform
      exact TransformRule.alike_run hrule h step.params

/-- Lenses fold a constant to the value of the signal that they make of a signal with its value. -/
theorem agree_applySteps {steps : List Step} (hsteps : ∀ step ∈ steps, r.IsExact .lens step) (h : Paired x b c t b' e s) :
    Agree id (r.lensNumbers? steps x) ((r.applySteps .lens steps (.const c t)).run.run b)
      ((r.applySteps .lens steps (.signal e s)).run.run b') := by
  -- one step leaves another pair, of other builders, so both sides are generalized together
  induction steps generalizing b c t b' e s x with
  | nil => exact .of_signalIs id t s h.number h.signal
  | cons step rest ih =>
    obtain ⟨hstep, hrest⟩ := List.forall_mem_cons.1 hsteps
    have hboth := alike_applyStep hstep h
    rw [run_applySteps_cons, run_applySteps_cons, StateT.run_bind, StateT.run_bind, lensNumbers?, List.foldlM_cons]
    generalize (r.applyStep .lens step (.const c t)).run b = folded at hboth ⊢
    generalize (r.applyStep .lens step (.signal e s)).run b' = emitted at hboth ⊢
    generalize r.lensNumber? x step = number at hboth ⊢
    cases hboth with
    | none => exact .error _
    | some h => exact ih hrest h

/-- A constant of a numeric domain is promoted to a signal that is its number. -/
theorem paired_coerce (ht : t.domain.isNumeric = true) (hc : b.number? c = some x) :
    ∃ e s b', (Build.coerce (.const c t) (t.withWorld .signal)).run b = (some (.signal e s), b') ∧ Paired x b c t b' e s := by
  unfold Build.coerce
  rw [ValueType.representation_of_isNumeric ht]
  exact ⟨_, _, _, rfl, ht, hc, ⟨_, Build.slotType?_slotFor _ _ _, ht⟩, Build.signalIs_slotFor (Build.signalIs_const hc) _ _⟩

end Registry

/-! ## Blocks of one operation -/

namespace LoweringKind

variable {b : Builder} {folded emitted : Site} {inputs : Dict ValueRef} {c d : ConstId} {t u v w : ValueType} {x y : Binary64}

/-- Two blocks whose output has one domain, as a constant of one of them and as a signal of the other. -/
structure Twins (folded emitted : Site) (v w : ValueType) : Prop where
  folded : portType? folded.outputs "out" = some v
  emitted : portType? emitted.outputs "out" = some w
  scalar : v.world = .scalar
  signal : w.world = .signal
  domain : v.domain = w.domain

/-- The outputs of both blocks have the form of their world, or neither has. -/
theorem Twins.representation (h : Twins folded emitted v w) :
    (v.representation = .const ∧ w.representation = .signal)
      ∨ (v.representation = w.representation ∧ (w.representation = .handle ∨ w.representation = .none)) := by
  unfold ValueType.representation
  rw [h.scalar, h.signal, h.domain]
  cases w.domain <;> simp

/-- A declared output has its type. -/
theorem outputType_eq {site : Site} {port : String} (h : portType? site.outputs port = some t) : site.outputType port = pure t := by
  unfold Site.outputType
  rw [show (site.outputs.find? (·.1 = port)).bind (·.2) = some t from h]
  rfl

/-- An input that has a value is that value. -/
theorem input_eq {port : String} {value : ValueRef} (h : inputs.get? port = some value) : Lower.input inputs port = pure value := by
  unfold Lower.input
  rw [h]
  rfl

/-- The number of a constant input is read without a change to the builder. -/
theorem run_number_bind {α : Type} (hc : b.number? c = some x) (port : String) (f : Binary64 → Lower α) :
    (Lower.number port (.const c t) >>= f).run.run b = (f x).run.run b := by
  show (Lower.need _ (b.number? c) >>= f).run.run b = _
  rw [hc]
  rfl

/-- What a block makes of a number if its output is of a type: nothing if the type is not one of constants. -/
def number? (v : ValueType) (x : Binary64) : Option Binary64 := if v.representation = .const then some x else none

/-- A block that combines two constants agrees with the same block that makes a signal. -/
theorem agree_zip (op : Op) (h : Twins folded emitted v w) (ha : inputs.get? "a" = some (.const c t))
    (hb : inputs.get? "b" = some (.const d u)) (hx : b.number? c = some x) (hy : b.number? d = some y) :
    Agree (Lower.single "out") (number? v (op.fold x y)) (((zip op).run folded inputs).run.run b)
      (((zip op).run emitted inputs).run.run b) := by
  unfold run lowerZip number?
  dsimp only
  rw [outputType_eq h.folded, outputType_eq h.emitted, input_eq ha, input_eq hb]
  simp only [pure_bind]
  obtain ⟨hv, hw⟩ | ⟨hv, hw | hw⟩ := h.representation
  · rw [hv, hw]
    dsimp only
    rw [run_number_bind hx, run_number_bind hy]
    have hboth := Build.signalIs_zip op (Build.signalIs_signal (Build.signalIs_const hx) (.const d))
      (Build.signalIs_const ((Build.extends_pushSignal b (.const c)).number? hy))
    exact .of_signalIs _ v _ (Build.number?_intern b (op.fold x y)) (Build.signalIs_slotFor hboth w _)
  all_goals
    rw [hv, hw]
    exact .error _

/-- A block that maps a constant agrees with the same block that makes a signal. -/
theorem agree_map (op : Op) (h : Twins folded emitted v w) (ha : inputs.get? "in" = some (.const c t)) (hx : b.number? c = some x) :
    Agree (Lower.single "out") (number? v (op.fold x .zero)) (((map op).run folded inputs).run.run b)
      (((map op).run emitted inputs).run.run b) := by
  unfold run lowerMap number?
  dsimp only
  rw [outputType_eq h.folded, outputType_eq h.emitted, input_eq ha]
  simp only [pure_bind]
  obtain ⟨hv, hw⟩ | ⟨hv, hw | hw⟩ := h.representation
  · rw [hv, hw]
    dsimp only
    rw [run_number_bind hx]
    have hsignal := Build.signalIs_map op (Build.signalIs_const hx)
    exact .of_signalIs _ v _ (Build.number?_intern b (op.fold x .zero)) (Build.signalIs_slotFor hsignal w _)
  all_goals
    rw [hv, hw]
    exact .error _

end LoweringKind

/-! ## Folding -/

open Registry

/-- A constant that is a number, under a type of a numeric domain, can be promoted to a signal. Built-in lenses make of the constant and
of the signal one number, that which they make of the number of the constant, or they fail on both with one error. So do blocks of
one operation on such constants, if the output of one block is a constant and that of the other a signal. -/
theorem folding_agrees {b : Builder} {c : ConstId} {t : ValueType} {x : Binary64} (ht : t.domain.isNumeric = true)
    (hx : b.number? c = some x) :
    (∀ (r : Registry) (e : Edge), e.adapters = [] → (∀ step ∈ e.lenses, r.IsBuiltin .lens step) →
      ∃ promoted b', (Build.coerce (.const c t) (t.withWorld .signal)).run b = (some promoted, b')
        ∧ Agree id (r.lensNumbers? e.lenses x) ((r.applyChain e (.const c t)).run.run b) ((r.applyChain e promoted).run.run b'))
    ∧ ∀ (op : Op) (folded emitted : Site) (v w : ValueType), LoweringKind.Twins folded emitted v w → ∀ inputs : Dict ValueRef,
      (∀ d u y, inputs.get? "a" = some (.const c t) → inputs.get? "b" = some (.const d u) → b.number? d = some y →
        Agree (Lower.single "out") (LoweringKind.number? v (op.fold x y)) (((LoweringKind.zip op).run folded inputs).run.run b)
          (((LoweringKind.zip op).run emitted inputs).run.run b))
      ∧ (inputs.get? "in" = some (.const c t) →
        Agree (Lower.single "out") (LoweringKind.number? v (op.fold x .zero)) (((LoweringKind.map op).run folded inputs).run.run b)
          (((LoweringKind.map op).run emitted inputs).run.run b)) := by
  refine ⟨fun r e hadapters hlenses => ?_, fun op folded emitted v w h inputs => ⟨fun d u y ha hb hy => ?_, fun ha => ?_⟩⟩
  · obtain ⟨i, s, b', hcoerce, hpaired⟩ := paired_coerce ht hx
    refine ⟨_, b', hcoerce, ?_⟩
    unfold applyChain
    rw [hadapters]
    exact agree_applySteps (fun step hstep => (hlenses step hstep).isExact) hpaired
  · exact LoweringKind.agree_zip op h ha hb hx hy
  · exact LoweringKind.agree_map op h ha hx

namespace Dimming

/-- An edge with three lenses. -/
def edge : Edge where
  id := "e"
  source := .port "a" "out"
  target := .port "b" "in"
  adapters := []
  lenses := [⟨"scale", Dict.insert {} "factor" (.int 2)⟩, ⟨"clamp01", {}⟩, ⟨"invert", {}⟩]

/-- The type of a constant level. -/
def level : ValueType := ⟨.scalar, .float, .core, none, some "percent"⟩

/-- A builder with two levels. -/
def builder : Builder := { consts := ((({} : Pool).intern (.int 3)).2.intern (.float .one)).2 }

/-- A block with one output. -/
def block (t : ValueType) : Site where
  block := ⟨0⟩
  id := "difference"
  params := {}
  outputs := [("out", some t)]
  time := .infinite .one

/-- The two levels as inputs. -/
def inputs : Dict ValueRef := Dict.insert (Dict.insert {} "a" (.const ⟨0⟩ level)) "b" (.const ⟨1⟩ level)

end Dimming

theorem folding_agrees_dimming :
    (∃ promoted b', (Build.coerce (.const ⟨0⟩ Dimming.level) (Dimming.level.withWorld .signal)).run Dimming.builder = (some promoted, b')
      ∧ Agree id (some (Op.fold .invert (Op.fold .clamp01 (Op.fold .mul (.ofInt 3) (.ofInt 2)) .zero) .zero))
        ((builtin.applyChain Dimming.edge (.const ⟨0⟩ Dimming.level)).run.run Dimming.builder)
        ((builtin.applyChain Dimming.edge promoted).run.run b'))
    ∧ Agree (Lower.single "out") (some (Op.fold .sub (.ofInt 3) .one))
      (((LoweringKind.zip .sub).run (Dimming.block Dimming.level) Dimming.inputs).run.run Dimming.builder)
      (((LoweringKind.zip .sub).run (Dimming.block (Dimming.level.withWorld .signal)) Dimming.inputs).run.run Dimming.builder) := by
  have hbuiltin : (∀ step ∈ Dimming.edge.lenses, (builtin.transform? .lens step.id).isSome = true)
      ∧ ((builtin.transform? .lens "scale").bind (·.transform)).bind Transform.rule? = some (.zip .mul "factor" .one)
      ∧ ((builtin.transform? .lens "clamp01").bind (·.transform)).bind Transform.rule? = some (.map .clamp01)
      ∧ ((builtin.transform? .lens "invert").bind (·.transform)).bind Transform.rule? = some (.map .invert) := by
    decide +kernel
  obtain ⟨hlenses, hscale, hclamp, hinvert⟩ := hbuiltin
  have hnumbers : builtin.lensNumbers? Dimming.edge.lenses (.ofInt 3)
      = some (Op.fold .invert (Op.fold .clamp01 (Op.fold .mul (.ofInt 3) (.ofInt 2)) .zero) .zero) := by
    simp only [lensNumbers?, Dimming.edge, List.foldlM_cons, List.foldlM_nil, lensNumber?, hscale, hclamp, hinvert]
    rfl
  obtain ⟨hchain, hblocks⟩ := folding_agrees (b := Dimming.builder) (c := ⟨0⟩) (t := Dimming.level) rfl rfl
  have hedge := hchain builtin Dimming.edge rfl fun step hstep => isBuiltin_builtin (hlenses step hstep)
  rw [hnumbers] at hedge
  have htwins : LoweringKind.Twins (Dimming.block Dimming.level) (Dimming.block (Dimming.level.withWorld .signal)) _ _ :=
    ⟨rfl, rfl, rfl, rfl, rfl⟩
  exact ⟨hedge, (hblocks .sub _ _ _ _ htwins Dimming.inputs).1 ⟨1⟩ Dimming.level .one (by decide) (by decide) rfl⟩

end PatchGraph
