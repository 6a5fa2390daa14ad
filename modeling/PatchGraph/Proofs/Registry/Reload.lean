import PatchGraph.Proofs.Dict
import PatchGraph.Proofs.Registry.Loaded
import PatchGraph.Proofs.Registry.Restored

/-!
# Reading a registry's own text

A registry that was made of manifests holds nothing that its declarations do not say (`Declared`), except where they came from. So all
of it is made again from its canonical text, with the origin of the text in place of the old ones (`load_canonicalText_eq`), and two
registries with one canonical text differ in their origins only (`withOrigin_eq_of_canonicalText`).
-/

namespace PatchGraph

/-- The values of a declaration. -/
def Declaration.values : Declaration → List Value
  | .block d => d.values
  | .transform _ => []

/-- The values of a manifest are those of its declarations. -/
theorem Manifest.forall_mem_values {m : Manifest} {P : Value → Prop} :
    (∀ v ∈ m.values, P v) ↔ ∀ d ∈ m.declarations, ∀ v ∈ d.values, P v := by
  simp only [values, declarations, List.forall_mem_flatMap, List.forall_mem_append, List.forall_mem_map, Declaration.values]
  exact ⟨fun h => ⟨h, fun _ _ => List.forall_mem_nil _⟩, And.left⟩

/-- The entry with another origin. -/
def BlockEntry.withOrigin (e : BlockEntry) (origin : String) : BlockEntry := { e with origin }

/-- The entry with another origin. -/
def TransformEntry.withOrigin (e : TransformEntry) (origin : String) : TransformEntry := { e with origin }

namespace Registry

variable {r r' : Registry} {origin : String}

/-- The registry whose declarations all come from one origin. -/
def withOrigin (r : Registry) (origin : String) : Registry where
  blocks := r.blocks.map (·.withOrigin origin)
  adapters := r.adapters.map (·.withOrigin origin)
  lenses := r.lenses.map (·.withOrigin origin)

/-- Block types are found as before, with another origin. -/
@[simp] theorem block?_withOrigin (r : Registry) (origin name : String) :
    (r.withOrigin origin).block? name = (r.block? name).map (·.withOrigin origin) :=
  Dict.get?_map _ _ _

/-- The declarations are the same. -/
@[simp] theorem decl?_withOrigin (r : Registry) (origin name : String) : (r.withOrigin origin).decl? name = r.decl? name := by
  rw [decl?, decl?, block?_withOrigin, Option.map_map]
  rfl

/-- The transforms of a kind are the same but for their origin. -/
theorem transforms_withOrigin (r : Registry) (origin : String) (kind : TransformKind) :
    (r.withOrigin origin).transforms kind = (r.transforms kind).map (·.withOrigin origin) := by
  cases kind <;> rfl

/-- Transforms are found as before, with another origin. -/
@[simp] theorem transform?_withOrigin (r : Registry) (origin : String) (kind : TransformKind) (id : String) :
    (r.withOrigin origin).transform? kind id = (r.transform? kind id).map (·.withOrigin origin) := by
  rw [transform?, transforms_withOrigin]
  exact Dict.get?_map _ _ _

/-! ## What is declared -/

/-- Every entry stands under the name that it declares and holds what its declaration names, and its values can be stored. -/
structure Declared (r : Registry) : Prop where
  blocks : ∀ e ∈ r.blocks.entries, e.2.decl.type = e.1 ∧ ∀ origin, loweringOf e.2.decl origin = .ok e.2.lowering
  transforms : ∀ kind, ∀ e ∈ (r.transforms kind).entries,
    (e.2.decl.kind = kind ∧ e.2.decl.id = e.1) ∧ ∀ origin, transformOf e.2.decl origin = .ok e.2.transform
  values : ∀ e ∈ r.blocks.entries, ∀ v ∈ e.2.decl.values, v.Storable

/-- The lowering that a declaration names does not depend on where it comes from. -/
theorem loweringOf_eq_ok {d : BlockDecl} {lowering : Option Lowering} (h : loweringOf d origin = .ok lowering) (other : String) :
    loweringOf d other = .ok lowering := by
  unfold loweringOf at h ⊢
  split at h
  · exact h
  · split at h
    · exact h
    · cases h

/-- Which rule a declaration names does not depend on where it stands. -/
theorem transformOf_eq_ok {d : TransformDecl} {transform : Option Transform} (h : transformOf d origin = .ok transform)
    (other : String) : transformOf d other = .ok transform := by
  unfold transformOf at h ⊢
  split at h
  · exact h
  · split at h
    · exact h
    · cases h

/-- One more declaration whose values can be stored. -/
theorem Declared.declare (hr : r.Declared) {d : Declaration} (hd : ∀ v ∈ d.values, v.Storable) (h : r.declare origin d = .ok r') :
    r'.Declared := by
  cases d with
  | block d =>
    obtain ⟨lowering, hlowering, -, rfl⟩ := declare_block_eq_ok.1 h
    refine ⟨fun e he => ?_, hr.transforms, fun e he => ?_⟩
    · rcases Dict.mem_place he with rfl | he
      · exact ⟨rfl, loweringOf_eq_ok hlowering⟩
      · exact hr.blocks e he
    · rcases Dict.mem_place he with rfl | he
      · exact hd
      · exact hr.values e he
  | transform d =>
    obtain ⟨transform, htransform, -, rfl⟩ := declare_transform_eq_ok.1 h
    have hblocks := blocks_putTransforms r d.kind ((r.transforms d.kind).insert d.id ⟨d, transform, origin⟩)
    refine ⟨hblocks ▸ hr.blocks, fun kind e he => ?_, hblocks ▸ hr.values⟩
    rw [transforms_putTransforms] at he
    split at he
    · rename_i hkind
      rcases Dict.mem_place he with rfl | he
      · exact ⟨⟨hkind.symm, rfl⟩, transformOf_eq_ok htransform⟩
      · exact hkind ▸ hr.transforms d.kind e he
    · exact hr.transforms kind e he

theorem declared_empty : empty.Declared := by
  refine ⟨List.forall_mem_nil _, fun kind => ?_, List.forall_mem_nil _⟩
  cases kind <;> exact List.forall_mem_nil _

/-- A registry that was loaded holds what is declared, step by step of loading. -/
theorem Loaded.declared (h : r.Loaded) : r.Declared := by
  refine Loaded.induction (Q := fun d => ∀ v ∈ d.values, v.Storable) (fun hr hd => hr.declare hd) (by decide +kernel)
    (fun text m hm => ?_) declared_empty h
  exact Manifest.forall_mem_values.1 (Manifest.storable_of_ofText hm)

/-- The values of declarations can be stored. -/
theorem Declared.storable (h : r.Declared) : ∀ v ∈ r.manifest.values, v.Storable := by
  simp only [Manifest.values, manifest, Dict.values, List.forall_mem_flatMap, List.forall_mem_map]
  exact h.values

/-! ## Declaring it all again -/

/-- Block types with new names are declared one after the other. -/
theorem declareAll_blocks {es : List (String × BlockEntry)}
    (hes : ∀ e ∈ es, e.2.decl.type = e.1 ∧ ∀ origin, loweringOf e.2.decl origin = .ok e.2.lowering)
    (hkeys : (es.map (·.1)).Nodup) (hnew : ∀ e ∈ es, r.block? e.1 = none) (rest : List Declaration) :
    r.declareAll origin (es.map (fun e => .block e.2.decl) ++ rest)
      = declareAll origin { r with blocks := es.foldl (fun t e => t.insert e.1 (e.2.withOrigin origin)) r.blocks } rest := by
  induction es generalizing r with
  | nil => rfl
  | cons e es ih =>
    simp only [List.forall_mem_cons, List.map_cons, List.nodup_cons] at hes hkeys hnew
    obtain ⟨⟨hname, hlowering⟩, hes⟩ := hes
    have hdeclare : r.declare origin (.block e.2.decl) = .ok { r with blocks := r.blocks.insert e.1 (e.2.withOrigin origin) } :=
      declare_block_eq_ok.2 ⟨_, hlowering origin, hname ▸ hnew.1, hname ▸ rfl⟩
    rw [List.map_cons, List.cons_append, declareAll, hdeclare, List.foldl_cons]
    refine ih hes hkeys.2 fun f hf => ?_
    have hne : f.1 ≠ e.1 := fun heq => hkeys.1 (heq ▸ List.mem_map_of_mem hf)
    rw [block?, Dict.get?_insert, if_neg hne]
    exact hnew.2 f hf

/-- Transforms of one kind with new names are declared one after the other. -/
theorem declareAll_transforms {kind : TransformKind} {es : List (String × TransformEntry)}
    (hes : ∀ e ∈ es, (e.2.decl.kind = kind ∧ e.2.decl.id = e.1) ∧ ∀ origin, transformOf e.2.decl origin = .ok e.2.transform)
    (hkeys : (es.map (·.1)).Nodup) (hnew : ∀ e ∈ es, r.transform? kind e.1 = none) (rest : List Declaration) :
    r.declareAll origin (es.map (fun e => .transform e.2.decl) ++ rest)
      = (r.putTransforms kind (es.foldl (fun t e => t.insert e.1 (e.2.withOrigin origin)) (r.transforms kind))).declareAll origin
        rest := by
  induction es generalizing r with
  | nil => cases kind <;> rfl
  | cons e es ih =>
    simp only [List.forall_mem_cons, List.map_cons, List.nodup_cons] at hes hkeys hnew
    obtain ⟨⟨⟨rfl, hname⟩, htransform⟩, hes⟩ := hes
    have hdeclare : r.declare origin (.transform e.2.decl)
        = .ok (r.putTransforms e.2.decl.kind ((r.transforms e.2.decl.kind).insert e.1 (e.2.withOrigin origin))) :=
      declare_transform_eq_ok.2 ⟨_, htransform origin, hname ▸ hnew.1, hname ▸ rfl⟩
    rw [List.map_cons, List.cons_append, declareAll, hdeclare, List.foldl_cons]
    generalize hentries : (r.transforms e.2.decl.kind).insert e.1 (e.2.withOrigin origin) = entries
    have htransforms : (r.putTransforms e.2.decl.kind entries).transforms e.2.decl.kind = entries := by
      rw [transforms_putTransforms, if_pos rfl]
    refine (ih hes hkeys.2 fun f hf => ?_).trans ?_
    · have hne : f.1 ≠ e.1 := fun heq => hkeys.1 (heq ▸ List.mem_map_of_mem hf)
      rw [transform?, htransforms, ← hentries, Dict.get?_insert, if_neg hne]
      exact hnew.2 f hf
    · rw [htransforms]
      cases e.2.decl.kind <;> rfl

/-- All of a registry is declared again by its manifest. -/
theorem Declared.declareAll_manifest (h : r.Declared) (origin : String) :
    empty.declareAll origin r.manifest.declarations = (r.withOrigin origin, none) := by
  have hdeclarations : r.manifest.declarations = r.blocks.entries.map (fun e => .block e.2.decl)
      ++ (r.adapters.entries.map (fun e => .transform e.2.decl) ++ (r.lenses.entries.map (fun e => .transform e.2.decl) ++ [])) := by
    simp [Manifest.declarations, manifest, Dict.values, Function.comp_def]
  rw [hdeclarations, withOrigin, ← Dict.foldl_insert_map, ← Dict.foldl_insert_map, ← Dict.foldl_insert_map]
  refine (declareAll_blocks h.blocks r.blocks.nodup_keys (fun _ _ => rfl) _).trans ?_
  refine (declareAll_transforms (h.transforms .adapter) r.adapters.nodup_keys (fun _ _ => rfl) _).trans ?_
  exact declareAll_transforms (h.transforms .lens) r.lenses.nodup_keys (fun _ _ => rfl) []

/-! ## Reading the text -/

/-- To load the text of a manifest is to add its declarations, if its text gives it back and none of them is refused. -/
theorem load_compact {m : Manifest} {origin : String} (hvalues : ∀ v ∈ m.values, v.Storable) (hreads : ∀ x ∈ m.doubles, x.ReadsBack)
    (hdeclared : (r.declareAll origin m.declarations).2 = none) :
    r.load m.toJson.compact origin = ((r.declareAll origin m.declarations).1, .ok m.declarations.length) := by
  have htext : Manifest.ofText m.toJson.compact = .ok m := (Manifest.ofText_compact_iff hvalues).2 hreads
  exact load_of_declareAll (congrArg Except.toOption htext) hdeclared

/-- A manifest whose values are read back can be loaded from its text, so to declare it is to load it. -/
theorem Loaded.declareAll (hr : r.Loaded) {m : Manifest} {origin : String} (hvalues : ∀ v ∈ m.values, v.Storable)
    (hreads : ∀ x ∈ m.doubles, x.ReadsBack) (hdeclared : (r.declareAll origin m.declarations).2 = none) :
    (r.declareAll origin m.declarations).1.Loaded :=
  .load hr (load_compact hvalues hreads hdeclared)

/-- The doubles of a registry. -/
def doubles (r : Registry) : List Binary64 := r.manifest.doubles

/-- A registry is made again from its canonical text, if its doubles are read back. -/
theorem Loaded.load_canonicalText_eq (h : r.Loaded) (hreads : ∀ x ∈ r.doubles, x.ReadsBack) (origin : String) :
    Registry.empty.load r.canonicalText origin = (r.withOrigin origin, .ok r.manifest.declarations.length) := by
  have hdeclared := h.declared.declareAll_manifest origin
  rw [canonicalText, load_compact h.declared.storable hreads (by rw [hdeclared]), hdeclared]

/-- Registries with one canonical text differ in their origins only. -/
theorem Loaded.withOrigin_eq_of_canonicalText (hr : r.Loaded) (hr' : r'.Loaded) (h : r.canonicalText = r'.canonicalText)
    (origin : String) : r.withOrigin origin = r'.withOrigin origin := by
  have hjson : r.manifest.toJson = r'.manifest.toJson :=
    Json.compact_injective r.manifest.writable_toJson r'.manifest.writable_toJson h
  have hmanifest : r.manifest = r'.manifest := Manifest.toJson_injective hr.declared.storable hr'.declared.storable hjson
  have hdeclared := hr.declared.declareAll_manifest origin
  rw [hmanifest, hr'.declared.declareAll_manifest origin] at hdeclared
  exact (Prod.mk.inj hdeclared).1.symm

end Registry

end PatchGraph
