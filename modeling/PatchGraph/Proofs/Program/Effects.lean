import PatchGraph.Proofs.Graph.Edges
import PatchGraph.Proofs.Program.Routes
import PatchGraph.Registry.Builtin

/-!
# What edges do to the type of a value

The type after the adapters of an edge is computed twice: from what is declared of them, before there is a program, and by the steps
themselves, each of which gives a type to what it makes. For the built-in transforms both are the same type, with its category and its
remarks (`chain_types_declared`). The reason is a property of each rule: what it makes of a value has the type that the effect declared for
the rule gives, and the form of that type (`TransformRule.hasType_run`). A value that passes a step as it is has that type already.
-/

namespace PatchGraph

/-- A value has a type if it is known under it and has the form that the type asks for. -/
structure Builder.HasType (b : Builder) (v : ValueRef) (t : ValueType) : Prop where
  type : b.typeOf? v = some t
  fits : t.Fits v

namespace ValueType

/-- The form of a type of values is that of its world. -/
theorem withWorld_eq_of_representation {t : ValueType} {w : World} (h : (t.withWorld w).representation = t.representation)
    (hhandle : t.representation ≠ .handle) (hnone : t.representation ≠ .none) : t.withWorld w = t := by
  rcases t with ⟨world, domain, category, semantics, unit⟩
  unfold withWorld representation at h
  unfold representation at hhandle hnone
  cases domain <;> cases world <;> cases w <;> simp_all [withWorld]

/-- A phase and the number it becomes have the same form. -/
theorem representation_of_phase {t : ValueType} (ht : t.domain = .phase) : (t.withDomain .float).representation = t.representation := by
  simp [representation, withDomain, ht]

end ValueType

/-- A value with a type has a form of its own, and it is no handle. -/
theorem Builder.HasType.form {b : Builder} {v : ValueRef} {t : ValueType} (h : b.HasType v t) :
    t.representation = v.form ∧ t.representation ≠ .handle ∧ t.representation ≠ .none := by
  have hform := ValueType.fits_iff.1 h.fits
  rw [hform]
  cases v with
  | special => cases h.type
  | _ => exact ⟨rfl, Representation.noConfusion, Representation.noConfusion⟩

namespace Build

/-- What a value is taken to has the type that it is taken to, unless it passes as it is. -/
theorem typeOf?_coerce {b : Builder} {v w : ValueRef} {t u : ValueType} (hv : b.typeOf? v = some t)
    (hsame : u.representation = v.form → t = u) (hw : ((coerce v u).run b).1 = some w) : ((coerce v u).run b).2.typeOf? w = some u := by
  unfold coerce at hw ⊢
  split at hw
  all_goals rename_i hform
  case h_9 => cases hw
  case h_8 => cases hv
  case h_1 =>
    cases hw
    rfl
  case h_2 | h_4 | h_7 =>
    cases hw
    exact hv.trans (congrArg some (hsame hform))
  case h_3 | h_5 | h_6 =>
    cases hw
    exact slotType?_slotFor _ u _

/-- A value that is coerced to another world has its type there. -/
theorem hasType_coerce {b : Builder} {v w : ValueRef} {t : ValueType} (hv : b.HasType v t) (world : World)
    (hw : ((coerce v (t.withWorld world)).run b).1 = some w) :
    ((coerce v (t.withWorld world)).run b).2.HasType w (t.withWorld world) := by
  obtain ⟨hform, hhandle, hnone⟩ := hv.form
  -- a value that passes as it is keeps its type, which must then be of that world already
  refine ⟨typeOf?_coerce hv.type (fun h => ?_) hw, returns_coerce v _ b w hw⟩
  exact (ValueType.withWorld_eq_of_representation (h.trans hform.symm) hhandle hnone).symm

end Build

/-- Whatever a step makes is known under a type. -/
def Attempt.Makes (m : Attempt ValueRef) (t : ValueType) : Prop :=
  ∀ b w, (m.run.run b).1 = some w → (m.run.run b).2.typeOf? w = some t

namespace Attempt.Makes

variable {t : ValueType}

theorem failure : Makes failure t := fun _ _ hw => by cases hw

/-- A constant has the type it is made with. -/
theorem constant (v : Value) (t : ValueType) : Makes (liftM (Build.constant v t)) t := fun _ _ hw => by
  cases hw
  rfl

/-- A signal has the type it is registered with. -/
theorem signalValue (e : SignalId) (t : ValueType) : Makes (liftM (Build.signalValue e t)) t := fun b _ hw => by
  cases hw
  exact Build.slotType?_slotFor b t _

/-- A field has the type it is registered with. -/
theorem fieldValue (e : FieldId) (t : ValueType) : Makes (liftM (Build.fieldValue e t)) t := fun b _ hw => by
  cases hw
  exact Build.slotType?_slotFor b t _

/-- What comes last decides the type. -/
theorem bind {α : Type} {m : Attempt α} {f : α → Attempt ValueRef} (hf : ∀ x, Makes (f x) t) : Makes (m >>= f) t := by
  intro b w hw
  rw [OptionT.run_bind] at hw ⊢
  change (StateT.run ((m.run.run b).1.elim (pure none) fun x => (f x).run) (m.run.run b).2).1 = some w at hw
  change (StateT.run ((m.run.run b).1.elim (pure none) fun x => (f x).run) (m.run.run b).2).2.typeOf? w = some t
  cases hx : (m.run.run b).1 with
  | none => rw [hx] at hw; cases hw
  | some x =>
    rw [hx] at hw
    exact hf x _ w hw

end Attempt.Makes

namespace TransformRule

open Attempt

variable {b : Builder} {v w : ValueRef} {t : ValueType}

/-- A step that needs the type of a number fails if the value has another type. -/
theorem run_numericTypeOf_bind {α : Type} (ht : b.typeOf? v = some t) (f : ValueType → Attempt α) :
    (numericTypeOf v >>= f).run.run b = if t.domain.isNumeric then (f t).run.run b else (none, b) := by
  rw [numericTypeOf, bind_assoc, run_typeOf_bind, ht]
  dsimp only
  split <;> rfl

/-- What is made of a number has a type if the step after looking at the type of the number makes it so. -/
theorem typeOf?_numeric {f : ValueType → Attempt ValueRef} (ht : b.typeOf? v = some t) (hf : Makes (f t) t)
    (hw : ((numericTypeOf v >>= f).run.run b).1 = some w) : ((numericTypeOf v >>= f).run.run b).2.typeOf? w = some t := by
  rw [run_numericTypeOf_bind ht] at hw ⊢
  cases hnumeric : t.domain.isNumeric with
  | false => rw [hnumeric] at hw; cases hw
  | true =>
    rw [hnumeric] at hw
    exact hf b w hw

/-- To combine a value with a number keeps its type. -/
theorem typeOf?_applyZip (ht : b.typeOf? v = some t) {op : Op} {operand : Binary64}
    (hw : ((applyZip op operand v).run.run b).1 = some w) : ((applyZip op operand v).run.run b).2.typeOf? w = some t := by
  refine typeOf?_numeric ht ?_ hw
  cases v with
  | const c u => exact .bind fun _ => .constant _ t
  | signal e s => exact .bind fun _ => .bind fun _ => .bind fun _ => .signalValue _ t
  | field e s => exact .bind fun _ => .bind fun _ => .bind fun _ => .fieldValue _ t
  | event | special => exact .failure

/-- To map a value keeps its type. -/
theorem typeOf?_applyMap (ht : b.typeOf? v = some t) {op : Op} (hw : ((applyMap op v).run.run b).1 = some w) :
    ((applyMap op v).run.run b).2.typeOf? w = some t := by
  refine typeOf?_numeric ht ?_ hw
  cases v with
  | const c u => exact .bind fun _ => .constant _ t
  | signal e s => exact .bind fun _ => .signalValue _ t
  | field e s => exact .bind fun _ => .fieldValue _ t
  | event | special => exact .failure

/-- A phase becomes a number in its own world. -/
theorem hasType_applyPhaseToFloat (hv : b.HasType v t) (hw : ((applyPhaseToFloat v).run.run b).1 = some w) :
    ((applyPhaseToFloat v).run.run b).2.HasType w (t.withDomain .float) := by
  have hform : w.form = v.form := returns_applyPhaseToFloat v b w hw
  rw [applyPhaseToFloat, run_typeOf_bind, hv.type] at hw ⊢
  dsimp only at hw ⊢
  by_cases hphase : t.domain = .phase
  · rw [if_pos hphase] at hw ⊢
    refine ⟨?_, ValueType.fits_iff.2 ?_⟩
    · cases v with
      | const c u =>
        cases hw
        rfl
      | signal e s => exact Makes.signalValue e (t.withDomain .float) b w hw
      | field e s => exact Makes.fieldValue e (t.withDomain .float) b w hw
      | event | special => cases hw
    · rw [ValueType.representation_of_phase hphase, hform]
      exact ValueType.fits_iff.1 hv.fits
  · rw [if_neg hphase] at hw
    cases hw

/-- What a rule makes of a value has the type that the effect declared for the rule gives. -/
theorem hasType_run {r : TransformRule} {effect : TypeEffect} (hr : r.isDeclaredBy effect = true) (hv : b.HasType v t)
    {params : Dict Value} (hw : ((r.run v params).run.run b).1 = some w) :
    ((r.run v params).run.run b).2.HasType w (effect.apply t) := by
  have hkept : w.form = v.form → t.Fits w := fun hform => ValueType.fits_iff.2 ((ValueType.fits_iff.1 hv.fits).trans hform.symm)
  cases r with
  | toSignal =>
    obtain rfl := of_decide_eq_true hr
    rw [run, run_typeOf_bind, hv.type] at hw ⊢
    exact Build.hasType_coerce hv .signal hw
  | toField =>
    obtain rfl := of_decide_eq_true hr
    rw [run, run_typeOf_bind, hv.type] at hw ⊢
    exact Build.hasType_coerce hv .field hw
  | phaseToFloat =>
    obtain rfl := of_decide_eq_true hr
    exact hasType_applyPhaseToFloat hv hw
  | map op =>
    obtain rfl := of_decide_eq_true hr
    exact ⟨typeOf?_applyMap hv.type hw, hkept (returns_applyMap op v b w hw)⟩
  | zip op param default =>
    obtain rfl := of_decide_eq_true hr
    rw [run] at hw ⊢
    cases hparam : params.get? param with
    | none =>
      rw [hparam] at hw
      exact ⟨typeOf?_applyZip hv.type hw, hkept (returns_applyZip op default v b w hw)⟩
    | some value =>
      rw [hparam] at hw
      dsimp only at hw ⊢
      cases hnumber : value.number? with
      | none => rw [hnumber] at hw; cases hw
      | some operand =>
        rw [hnumber] at hw
        exact ⟨typeOf?_applyZip hv.type hw, hkept (returns_applyZip op operand v b w hw)⟩

end TransformRule

/-! ## Edges -/

/-- The effect of a transform on types: a lens has none, whatever is declared of it. -/
def TransformKind.effectOf : TransformKind → TransformDecl → TypeEffect
  | .adapter, d => d.effect
  | .lens, _ => {}

/-- The type after effects, one after the other. -/
def TypeEffect.applyAll (effects : List TypeEffect) (t : ValueType) : ValueType := effects.foldl (fun t effect => effect.apply t) t

namespace Registry

variable {r : Registry} {kind : TransformKind} {b b' : Builder} {v w : ValueRef} {t : ValueType}

/-- The effect of a step on types. -/
def effectOf (r : Registry) (kind : TransformKind) (s : Step) : TypeEffect :=
  ((r.transform? kind s.id).map fun entry => kind.effectOf entry.decl).getD {}

/-- If a step does anything, it is a rule that does what the effect of the step says. -/
def IsExact (r : Registry) (kind : TransformKind) (s : Step) : Prop :=
  ∀ entry, r.transform? kind s.id = some entry → ∀ transform, entry.transform = some transform →
    ∃ rule, transform = .rule rule ∧ rule.isDeclaredBy (kind.effectOf entry.decl) = true

/-- Lenses have no effect on types. -/
theorem applyAll_lenses (steps : List Step) (t : ValueType) : TypeEffect.applyAll (steps.map (r.effectOf .lens)) t = t := by
  induction steps with
  | nil => rfl
  | cons s rest ih =>
    have hnone : r.effectOf .lens s = {} := by
      unfold effectOf
      cases r.transform? .lens s.id <;> rfl
    rw [List.map_cons, hnone]
    exact ih

/-- The type that is computed for an edge is the one after the effects of its adapters. -/
theorem adaptedType_eq_applyAll (steps : List Step) (t : ValueType) :
    Typing.adaptedType r t steps = TypeEffect.applyAll (steps.map (r.effectOf .adapter)) t := by
  unfold Typing.adaptedType TypeEffect.applyAll
  rw [List.foldl_map]
  refine congrArg (fun f => List.foldl f t steps) (funext fun t => funext fun s => ?_)
  unfold effectOf
  cases r.transform? .adapter s.id <;> rfl

/-- A step that is taken gives the type that its effect says. -/
theorem hasType_applyStep {s : Step} (hs : r.IsExact kind s) (hv : b.HasType v t)
    (hw : ((r.applyStep kind s v).run b).1 = some w) :
    ((r.applyStep kind s v).run b).2.HasType w ((r.effectOf kind s).apply t) := by
  unfold applyStep at hw ⊢
  unfold effectOf
  cases hentry : r.transform? kind s.id with
  | none => rw [hentry] at hw; cases hw
  | some entry =>
    rw [hentry] at hw
    dsimp only [Option.bind_some] at hw ⊢
    cases htransform : entry.transform with
    | none => rw [htransform] at hw; cases hw
    | some transform =>
      rw [htransform] at hw
      obtain ⟨rule, rfl, hrule⟩ := hs entry hentry transform htransform
      exact TransformRule.hasType_run hrule hv hw

/-- Steps are taken one after the other. -/
theorem exists_of_run_applySteps_cons {s : Step} {rest : List Step}
    (h : (r.applySteps kind (s :: rest) v).run.run b = (.ok w, b')) :
    ∃ x, ((r.applyStep kind s v).run b).1 = some x
      ∧ (r.applySteps kind rest x).run.run ((r.applyStep kind s v).run b).2 = (.ok w, b') := by
  rw [run_applySteps_cons, StateT.run_bind] at h
  generalize (r.applyStep kind s v).run b = after at h ⊢
  rcases after with ⟨_ | x, after⟩
  · cases h
  · exact ⟨x, rfl, h⟩

/-- The lenses of an edge come after its adapters. -/
theorem exists_of_run_applyChain {e : Edge} (h : (r.applyChain e v).run.run b = (.ok w, b')) :
    ∃ x, ((r.applySteps .adapter e.adapters v).run.run b).1 = .ok x
      ∧ (r.applySteps .lens e.lenses x).run.run ((r.applySteps .adapter e.adapters v).run.run b).2 = (.ok w, b') := by
  rw [applyChain, ExceptT.run_bind, StateT.run_bind] at h
  generalize (r.applySteps .adapter e.adapters v).run.run b = after at h ⊢
  rcases after with ⟨_ | x, after⟩
  · cases h
  · exact ⟨x, rfl, h⟩

/-- What passed steps has the type after their effects. -/
theorem hasType_applySteps {steps : List Step} (hsteps : ∀ s ∈ steps, r.IsExact kind s) (hv : b.HasType v t)
    (h : (r.applySteps kind steps v).run.run b = (.ok w, b')) :
    b'.HasType w (TypeEffect.applyAll (steps.map (r.effectOf kind)) t) := by
  induction steps generalizing b v t with
  | nil =>
    obtain ⟨hw, rfl⟩ := Prod.mk.inj h
    obtain rfl := Except.ok.inj hw
    exact hv
  | cons s rest ih =>
    obtain ⟨hs, hrest⟩ := List.forall_mem_cons.1 hsteps
    obtain ⟨x, hx, h⟩ := exists_of_run_applySteps_cons h
    exact ih hrest (hasType_applyStep hs hv hx) h

/-- What passed an edge has the type after the effects of its adapters. -/
theorem hasType_applyChain {e : Edge} (hadapters : ∀ s ∈ e.adapters, r.IsExact .adapter s) (hlenses : ∀ s ∈ e.lenses, r.IsExact .lens s)
    (hv : b.HasType v t) (h : (r.applyChain e v).run.run b = (.ok w, b')) :
    b'.HasType w (TypeEffect.applyAll (e.adapters.map (r.effectOf .adapter)) t) := by
  obtain ⟨x, hx, h⟩ := exists_of_run_applyChain h
  have hadapted := hasType_applySteps hadapters hv (Prod.ext hx rfl)
  have hw := hasType_applySteps hlenses hadapted h
  rwa [applyAll_lenses] at hw

/-! ## Built-in transforms -/

/-- A step is the built-in transform of its name. -/
def IsBuiltin (r : Registry) (kind : TransformKind) (s : Step) : Prop :=
  ∃ entry, builtin.transform? kind s.id = some entry ∧ r.transform? kind s.id = some entry

/-- The built-in transforms are rules that do what is declared of them, and the lenses among them leave types as they are. -/
theorem isDeclaredBy_builtin (kind : TransformKind) :
    ∀ entry ∈ (builtin.transforms kind).values, ∀ transform ∈ entry.transform,
      ∃ rule ∈ transform.rule?, rule.isDeclaredBy (kind.effectOf entry.decl) = true := by
  have hall : ∀ kind ∈ [TransformKind.adapter, .lens], ∀ entry ∈ (builtin.transforms kind).values, ∀ transform ∈ entry.transform,
      ∃ rule ∈ transform.rule?, rule.isDeclaredBy (kind.effectOf entry.decl) = true := by
    decide +kernel
  exact hall kind (by cases kind <;> decide)

/-- Built-in steps do to types what they declare. -/
theorem IsBuiltin.isExact {s : Step} (h : r.IsBuiltin kind s) : r.IsExact kind s := by
  intro entry hentry transform htransform
  obtain ⟨_, hbuiltin, hsame⟩ := h
  obtain rfl := Option.some.inj (hentry.symm.trans hsame)
  obtain ⟨rule, hrule, hdeclared⟩ := isDeclaredBy_builtin kind entry (Dict.mem_values_of_get? hbuiltin) transform htransform
  cases transform with
  | rule => exact ⟨rule, congrArg Transform.rule (Option.some.inj hrule), hdeclared⟩
  | custom => cases hrule

/-- All steps that the built-in registry knows are built-in. -/
theorem isBuiltin_builtin {s : Step} (h : (builtin.transform? kind s.id).isSome = true) : builtin.IsBuiltin kind s := by
  obtain ⟨entry, hentry⟩ := Option.isSome_iff_exists.1 h
  exact ⟨entry, hentry, hentry⟩

end Registry

open Registry

/-- If all steps of an edge are built-in transforms, what passed them has the type that was computed for the edge, which is the type of the
value after the effects of the adapters, and it has the form that the type asks for. -/
theorem chain_types_declared {r : Registry} {e : Edge} (hadapters : ∀ s ∈ e.adapters, r.IsBuiltin .adapter s)
    (hlenses : ∀ s ∈ e.lenses, r.IsBuiltin .lens s) {b b' : Builder} {v w : ValueRef} {t : ValueType} (ht : b.typeOf? v = some t)
    (hv : t.Fits v) (hrun : (r.applyChain e v).run.run b = (.ok w, b')) :
    b'.typeOf? w = some (TypeEffect.applyAll (e.adapters.map (r.effectOf .adapter)) t)
      ∧ (TypeEffect.applyAll (e.adapters.map (r.effectOf .adapter)) t).Fits w
      ∧ b'.typeOf? w = some (Typing.adaptedType r t e.adapters)
      ∧ ∀ n types typing, Typing.edgeTyping? n r types e = some typing → typing.source = t → b'.typeOf? w = some typing.adapted := by
  have hw := hasType_applyChain (fun s hs => (hadapters s hs).isExact) (fun s hs => (hlenses s hs).isExact) ⟨ht, hv⟩ hrun
  have hadapted : b'.typeOf? w = some (Typing.adaptedType r t e.adapters) := by
    rw [adaptedType_eq_applyAll]
    exact hw.type
  refine ⟨hw.type, hw.fits, hadapted, fun n types typing htyping hsource => ?_⟩
  rw [(Typing.edgeTyping?_eq_some htyping).2.2.1, hsource]
  exact hadapted

namespace Turns

/-- An edge with three adapters and a lens. -/
def edge : Edge where
  id := "e"
  source := .port "a" "out"
  target := .port "b" "in"
  adapters := [⟨"constToSignal", {}⟩, ⟨"phaseToFloat", {}⟩, ⟨"broadcast", {}⟩]
  lenses := [⟨"scale", Dict.insert {} "factor" (.float .zero)⟩]

/-- A constant phase with both remarks. -/
def phase : ValueRef := .const ⟨0⟩ ⟨.scalar, .phase, .internal, some "angle", some "turns"⟩

/-- A builder that holds the constant. -/
def builder : Builder := { consts := (({} : Pool).intern (.float .one)).2 }

end Turns

/-- A phase that is turned into a number and spread over a field keeps its category and its unit, but not what it stood for. -/
theorem chain_types_declared_turns :
    ∃ w b', (builtin.applyChain Turns.edge Turns.phase).run.run Turns.builder = (.ok w, b')
      ∧ b'.typeOf? w = some ⟨.field, .float, .internal, none, some "turns"⟩ := by
  have heval : (∀ s ∈ Turns.edge.adapters, (builtin.transform? .adapter s.id).isSome = true)
      ∧ (∀ s ∈ Turns.edge.lenses, (builtin.transform? .lens s.id).isSome = true)
      ∧ ((builtin.applyChain Turns.edge Turns.phase).run.run Turns.builder).1 = .ok (.field ⟨2⟩ ⟨3⟩)
      ∧ Turns.edge.adapters.map (builtin.effectOf .adapter) = [⟨some .signal, none⟩, ⟨none, some .float⟩, ⟨some .field, none⟩] := by
    decide +kernel
  obtain ⟨hadapters, hlenses, hok, heffects⟩ := heval
  obtain ⟨p, hp⟩ : ∃ p, (builtin.applyChain Turns.edge Turns.phase).run.run Turns.builder = p := ⟨_, rfl⟩
  rw [hp] at hok
  have hrun := hp.trans (Prod.ext hok rfl : p = (.ok (.field ⟨2⟩ ⟨3⟩), p.2))
  have hfits : ValueType.Fits ⟨.scalar, .phase, .internal, some "angle", some "turns"⟩ Turns.phase := rfl
  have htype := (chain_types_declared (fun s hs => isBuiltin_builtin (hadapters s hs))
    (fun s hs => isBuiltin_builtin (hlenses s hs)) rfl hfits hrun).1
  rw [heffects] at htype
  exact ⟨_, _, hrun, htype⟩

end PatchGraph
