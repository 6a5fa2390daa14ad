import PatchGraph.Proofs.Program.Lowerings
import PatchGraph.Registry.Builtin
import PatchGraph.Registry.Manifest

/-!
# Registries made of manifests

A manifest can only name lowerings and transforms, so a registry that was made by loading manifests, on top of the built-in registry
or of nothing, knows no others.
-/

namespace PatchGraph.Registry

/-- The registries that are made by loading manifests, one after the other, none of them refused. -/
inductive Loaded : Registry → Prop where
  | builtin : Loaded builtin
  | empty : Loaded empty
  | load {r r' : Registry} {text origin : String} {n : Nat} (before : Loaded r) (loaded : r.load text origin = (r', .ok n)) :
    Loaded r'

variable {r r' : Registry}

/-- A registry after a manifest was read and all of its declarations were added. -/
theorem load_of_declareAll {text origin : String} {m : Manifest}
    (hread : (Manifest.ofText text).toOption = some m) (hdeclared : (r.declareAll origin m.declarations).2 = none) :
    r.load text origin = ((r.declareAll origin m.declarations).1, .ok m.declarations.length) := by
  cases htext : Manifest.ofText text with
  | error e =>
    rw [htext] at hread
    cases hread
  | ok n =>
    rw [htext] at hread
    obtain rfl := Option.some.inj hread
    cases hdeclare : r.declareAll origin n.declarations with
    | mk after refused =>
      rw [hdeclare] at hdeclared
      obtain rfl := hdeclared
      simp only [load, htext, hdeclare]

/-! ## One more declaration -/

/-- The registry with other transforms of a kind. -/
def putTransforms (r : Registry) (kind : TransformKind) (entries : Dict TransformEntry) : Registry :=
  match kind with
  | .adapter => { r with adapters := entries }
  | .lens => { r with lenses := entries }

theorem blocks_putTransforms (r : Registry) (kind : TransformKind) (entries : Dict TransformEntry) :
    (r.putTransforms kind entries).blocks = r.blocks := by
  cases kind <;> rfl

/-- Transforms of one kind are put without a change to the other kind. -/
theorem transforms_putTransforms (r : Registry) (kind other : TransformKind) (entries : Dict TransformEntry) :
    (r.putTransforms kind entries).transforms other = if other = kind then entries else r.transforms other := by
  cases kind <;> cases other <;> rfl

variable {origin : String}

/-- A block type is declared if its lowering is known and its name is new. -/
theorem declare_block_eq_ok {d : BlockDecl} : r.declare origin (.block d) = .ok r' ↔
    ∃ lowering, loweringOf d origin = .ok lowering ∧ r.block? d.type = none
      ∧ { r with blocks := r.blocks.insert d.type ⟨d, lowering, origin⟩ } = r' := by
  cases hl : loweringOf d origin with
  | error e => simp [declare, hl, bind, Except.bind]
  | ok lowering => cases hnew : r.block? d.type <;> simp [declare, hl, bind, Except.bind, addBlock, hnew]

/-- A transform is declared if its rule is known and its name is new among those of its kind. -/
theorem declare_transform_eq_ok {d : TransformDecl} : r.declare origin (.transform d) = .ok r' ↔
    ∃ transform, transformOf d origin = .ok transform ∧ r.transform? d.kind d.id = none
      ∧ r.putTransforms d.kind ((r.transforms d.kind).insert d.id ⟨d, transform, origin⟩) = r' := by
  cases ht : transformOf d origin with
  | error e => simp [declare, ht, bind, Except.bind]
  | ok transform =>
    cases hnew : r.transform? d.kind d.id with
    | some e => simp [declare, ht, bind, Except.bind, addTransform, hnew]
    | none =>
      rcases d with ⟨id, kind, effect, compiler⟩
      cases kind <;> simp [declare, ht, bind, Except.bind, addTransform, hnew, putTransforms, transforms]

/-- A manifest can only name lowerings that are known. -/
theorem known_loweringOf {d : BlockDecl} {origin : String} {lowering : Option Lowering} (h : loweringOf d origin = .ok lowering) :
    ∀ l ∈ lowering, ∃ k, l = .kind k := by
  unfold loweringOf at h
  split at h
  · obtain rfl := Except.ok.inj h
    exact fun l hl => absurd hl (Option.not_mem_none l)
  · split at h
    · obtain rfl := Except.ok.inj h
      exact fun l hl => ⟨_, (Option.some.inj hl).symm⟩
    · cases h

/-- A manifest can only name rules that are known. -/
theorem known_transformOf {d : TransformDecl} {origin : String} {transform : Option Transform}
    (h : transformOf d origin = .ok transform) : ∀ t ∈ transform, ∃ rule, t = .rule rule := by
  unfold transformOf at h
  split at h
  · obtain rfl := Except.ok.inj h
    exact fun t ht => absurd ht (Option.not_mem_none t)
  · split at h
    · obtain rfl := Except.ok.inj h
      exact fun t ht => ⟨_, (Option.some.inj ht).symm⟩
    · cases h

/-- One more declaration adds no other lowering or transform. -/
theorem Standard.declare (hr : r.Standard) {d : Declaration} (h : r.declare origin d = .ok r') : r'.Standard := by
  cases d with
  | block d =>
    obtain ⟨lowering, hlowering, -, rfl⟩ := declare_block_eq_ok.1 h
    refine ⟨fun e he => ?_, hr.transforms⟩
    rcases Dict.mem_values_insert he with rfl | he
    · exact known_loweringOf hlowering
    · exact hr.lowerings e he
  | transform d =>
    obtain ⟨transform, htransform, -, rfl⟩ := declare_transform_eq_ok.1 h
    refine ⟨blocks_putTransforms r _ _ ▸ hr.lowerings, fun kind e he => ?_⟩
    rw [transforms_putTransforms] at he
    split at he
    · rename_i hkind
      rcases Dict.mem_values_insert he with rfl | he
      · exact known_transformOf htransform
      · exact hr.transforms d.kind e he
    · exact hr.transforms kind e he

theorem standard_empty : empty.Standard := by
  refine ⟨fun e he => absurd he List.not_mem_nil, fun kind => ?_⟩
  cases kind <;> exact fun e he => absurd he List.not_mem_nil

/-! ## What declarations keep -/

section Induction

variable {P : Registry → Prop} {Q : Declaration → Prop}
  (hdeclare : ∀ {r r' : Registry} {origin : String} {d : Declaration}, P r → Q d → r.declare origin d = .ok r' → P r')

include hdeclare

/-- What each declaration keeps is kept by all of them, also if one is refused. -/
theorem declareAll_induction {ds : List Declaration} (hds : ∀ d ∈ ds, Q d) (origin : String) (hr : P r) :
    P (r.declareAll origin ds).1 := by
  induction ds generalizing r with
  | nil => exact hr
  | cons d rest ih =>
    rw [List.forall_mem_cons] at hds
    rw [Registry.declareAll]
    split
    · rename_i r' h
      exact ih hds.2 (hdeclare hr hds.1 h)
    · exact hr

/-- What holds of the empty registry, and is kept by every declaration that is built in or in a manifest, holds of every registry that
is made of manifests. -/
theorem Loaded.induction (hbuiltin : ∀ d ∈ builtinBlocks.map .block ++ builtinTransforms.map .transform, Q d)
    (htext : ∀ text m, Manifest.ofText text = .ok m → ∀ d ∈ m.declarations, Q d) (hempty : P .empty) (h : r.Loaded) : P r := by
  induction h with
  | builtin => exact declareAll_induction hdeclare hbuiltin _ hempty
  | empty => exact hempty
  | @load r r' text origin n _ hload ih =>
    unfold Registry.load at hload
    split at hload
    · cases hload
    · rename_i m hm
      have hall := declareAll_induction hdeclare (htext text m hm) origin ih
      split at hload
      · cases hload
      · rename_i heq
        rw [heq] at hall
        obtain ⟨rfl, -⟩ := Prod.mk.inj hload
        exact hall

end Induction

/-- A registry that was made of manifests is standard. -/
theorem Loaded.standard (h : r.Loaded) : r.Standard :=
  Loaded.induction (Q := fun _ => True) (fun hr _ => hr.declare) (fun _ _ => trivial) (fun _ _ _ _ _ => trivial) standard_empty h

end PatchGraph.Registry
