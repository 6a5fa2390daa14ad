import PatchGraph.Proofs.Registry.Loaded

/-!
# The first declaration wins

A registry holds one entry under each name (`held?`); block types, adapters and lenses have names of their own. Declarations can all be
made if they name nothing that is unknown, and if their names are new and distinct (`Admits`). Otherwise the first that cannot be made
is refused for a reason that can be told from the registry and the declarations before it (`Offends`), and those before it stay
(`declareAll_cases`). So loading manifests, whether they are refused or not, leaves every entry as it was (`held?_loadEach`).
-/

namespace PatchGraph

/-- The name of a declaration. -/
inductive DeclarationName where
  | block (type : String)
  | transform (kind : TransformKind) (id : String)
  deriving DecidableEq

/-- An entry of a registry. -/
inductive RegistryEntry where
  | block (e : BlockEntry)
  | transform (e : TransformEntry)

/-- Where an entry came from. -/
def RegistryEntry.origin : RegistryEntry → String
  | .block e => e.origin
  | .transform e => e.origin

namespace Declaration

/-- The name that is declared. -/
def name : Declaration → DeclarationName
  | .block d => .block d.type
  | .transform d => .transform d.kind d.id

/-- The declaration names no lowering or rule, or a known one. -/
def Known : Declaration → Prop
  | .block d => ∀ name ∈ d.lowering, (LoweringKind.ofName? name).isSome
  | .transform d => ∀ name ∈ d.compiler, (TransformRule.ofName? name).isSome

/-- What a registry holds once the declaration was made. -/
def entry (origin : String) : Declaration → RegistryEntry
  | .block d => .block ⟨d, (d.lowering.bind LoweringKind.ofName?).map .kind, origin⟩
  | .transform d => .transform ⟨d, (d.compiler.bind TransformRule.ofName?).map .rule, origin⟩

/-- An entry keeps where it was declared. -/
theorem origin_entry (origin : String) (d : Declaration) : (d.entry origin).origin = origin := by
  cases d <;> rfl

end Declaration

namespace Registry

/-- The entry under a name. -/
def held? (r : Registry) : DeclarationName → Option RegistryEntry
  | .block type => (r.block? type).map .block
  | .transform kind id => (r.transform? kind id).map .transform

/-- Declarations that can all be made: they name nothing unknown, and their names are new and distinct. -/
structure Admits (r : Registry) (ds : List Declaration) : Prop where
  known : ∀ d ∈ ds, d.Known
  new : ∀ d ∈ ds, r.held? d.name = none
  distinct : (ds.map Declaration.name).Nodup

/-- One registry holds what another holds, and the declarations from an origin. -/
def Adds (r r' : Registry) (origin : String) (ds : List Declaration) : Prop :=
  ∀ name, r'.held? name = (r.held? name).or ((ds.find? (·.name = name)).map (·.entry origin))

/-- A declaration cannot be made after others of the same origin, and why: what it names is unknown, or else its name is held by the
registry or was declared before. -/
inductive Offends (r : Registry) (origin : String) (before : List Declaration) : Declaration → RegistryError → Prop where
  | unknownLowering {d : BlockDecl} {name : String} (names : d.lowering = some name) (unknown : LoweringKind.ofName? name = none) :
    Offends r origin before (.block d) (.unknownLowering d.type name origin)
  | unknownCompiler {d : TransformDecl} {name : String} (names : d.compiler = some name)
    (unknown : TransformRule.ofName? name = none) : Offends r origin before (.transform d) (.unknownCompiler d.id name origin)
  | heldBlock {d : BlockDecl} {e : BlockEntry} (known : (Declaration.block d).Known) (held : r.block? d.type = some e) :
    Offends r origin before (.block d) (.duplicateBlock d.type e.origin origin)
  | heldTransform {d : TransformDecl} {e : TransformEntry} (known : (Declaration.transform d).Known)
    (held : r.transform? d.kind d.id = some e) :
    Offends r origin before (.transform d) (.duplicateTransform d.id e.origin origin)
  | repeatedBlock {d : BlockDecl} (known : (Declaration.block d).Known) (new : r.block? d.type = none)
    (declared : .block d.type ∈ before.map Declaration.name) :
    Offends r origin before (.block d) (.duplicateBlock d.type origin origin)
  | repeatedTransform {d : TransformDecl} (known : (Declaration.transform d).Known) (new : r.transform? d.kind d.id = none)
    (declared : .transform d.kind d.id ∈ before.map Declaration.name) :
    Offends r origin before (.transform d) (.duplicateTransform d.id origin origin)

variable {r r' r'' : Registry} {origin : String} {d : Declaration} {ds before after : List Declaration} {e : RegistryError}

/-! ## What can be made and what is added -/

/-- It is always possible to declare nothing. -/
theorem admits_nil (r : Registry) : r.Admits [] := ⟨List.forall_mem_nil _, List.forall_mem_nil _, List.nodup_nil⟩

theorem adds_nil (r : Registry) (origin : String) : Adds r r origin [] := fun _ => Option.or_none.symm

/-- What is held is still held. -/
theorem Adds.held?_eq_some (h : Adds r r' origin ds) {name : DeclarationName} {entry : RegistryEntry}
    (hentry : r.held? name = some entry) : r'.held? name = some entry := by
  rw [h name, hentry, Option.some_or]

/-- A name that is not held was neither held before nor declared. -/
theorem Adds.held?_eq_none_iff (h : Adds r r' origin ds) {name : DeclarationName} :
    r'.held? name = none ↔ r.held? name = none ∧ name ∉ ds.map Declaration.name := by
  simp [h name, List.find?_eq_none]

/-- What is held was held before, or it was declared under a new name. -/
theorem Adds.cases_of_held? (h : Adds r r' origin ds) {name : DeclarationName} {entry : RegistryEntry}
    (hentry : r'.held? name = some entry) :
    r.held? name = some entry ∨ r.held? name = none ∧ name ∈ ds.map Declaration.name ∧ entry.origin = origin := by
  rw [h name] at hentry
  cases hheld : r.held? name with
  | some held =>
    rw [hheld, Option.some_or] at hentry
    exact .inl hentry
  | none =>
    rw [hheld, Option.none_or, Option.map_eq_some_iff] at hentry
    obtain ⟨d, hfind, rfl⟩ := hentry
    have hname : d.name = name := by simpa using List.find?_some hfind
    exact .inr ⟨rfl, hname ▸ List.mem_map_of_mem (List.mem_of_find?_eq_some hfind), d.origin_entry origin⟩

/-- To add one declaration and then others adds them all. -/
theorem Adds.cons (hd : Adds r r' origin [d]) (hds : Adds r' r'' origin ds) : Adds r r'' origin (d :: ds) := by
  intro name
  rw [hds name, hd name, Option.or_assoc]
  by_cases hname : d.name = name <;> simp [hname]

/-- A new declaration that names nothing unknown can be made before others that can be made after it. -/
theorem Admits.cons (hknown : d.Known) (hnew : r.held? d.name = none) (hadds : Adds r r' origin [d]) (hds : r'.Admits ds) :
    r.Admits (d :: ds) := by
  have hnone : ∀ d' ∈ ds, r.held? d'.name = none ∧ d'.name ≠ d.name := by
    intro d' hd'
    simpa using hadds.held?_eq_none_iff.1 (hds.new d' hd')
  refine ⟨List.forall_mem_cons.2 ⟨hknown, hds.known⟩, List.forall_mem_cons.2 ⟨hnew, fun d' hd' => (hnone d' hd').1⟩, ?_⟩
  refine List.nodup_cons.2 ⟨fun hmem => ?_, hds.distinct⟩
  obtain ⟨d', hd', hname⟩ := List.mem_map.1 hmem
  exact (hnone d' hd').2 hname

/-- Where all declarations can be made, none offends. -/
theorem Admits.not_offends (h : r.Admits (before ++ d :: after)) : ¬r.Offends origin before d e := by
  have hknown : d.Known := h.known d (List.mem_append_right _ List.mem_cons_self)
  have hnew : r.held? d.name = none := h.new d (List.mem_append_right _ List.mem_cons_self)
  have hdistinct : d.name ∉ before.map Declaration.name := by
    have hnodup := h.distinct
    rw [List.map_append, List.map_cons] at hnodup
    exact fun hmem => (List.nodup_append.1 hnodup).2.2 _ hmem _ List.mem_cons_self rfl
  intro hoffends
  cases hoffends with
  | unknownLowering names unknown => simpa [unknown] using hknown _ names
  | unknownCompiler names unknown => simpa [unknown] using hknown _ names
  | heldBlock _ held => simp [held?, Declaration.name, held] at hnew
  | heldTransform _ held => simp [held?, Declaration.name, held] at hnew
  | repeatedBlock _ _ declared => exact hdistinct declared
  | repeatedTransform _ _ declared => exact hdistinct declared

/-! ## One declaration -/

/-- A registry with one more entry, under a name that was new. -/
theorem adds_of_held? (hnew : r.held? d.name = none)
    (hheld : ∀ name, r'.held? name = if name = d.name then some (d.entry origin) else r.held? name) : Adds r r' origin [d] := by
  intro name
  rw [hheld name]
  by_cases hname : name = d.name
  · simp [hname, hnew]
  · simp [hname, Ne.symm hname]

/-- A lowering is refused if its name is unknown. -/
theorem loweringOf_eq_error {d : BlockDecl} (h : loweringOf d origin = .error e) :
    ∃ name, d.lowering = some name ∧ LoweringKind.ofName? name = none ∧ e = .unknownLowering d.type name origin := by
  cases hlowering : d.lowering with
  | none => simp [loweringOf, hlowering] at h
  | some name => cases hname : LoweringKind.ofName? name <;> simp_all [loweringOf]

/-- A lowering that is accepted is found by its name. -/
theorem known_of_loweringOf {d : BlockDecl} {lowering : Option Lowering} (h : loweringOf d origin = .ok lowering) :
    (Declaration.block d).Known ∧ lowering = (d.lowering.bind LoweringKind.ofName?).map .kind := by
  cases hlowering : d.lowering with
  | none => simp_all [loweringOf, Declaration.Known]
  | some name => cases hname : LoweringKind.ofName? name <;> simp_all [loweringOf, Declaration.Known]

/-- A rule is refused if its name is unknown. -/
theorem transformOf_eq_error {d : TransformDecl} (h : transformOf d origin = .error e) :
    ∃ name, d.compiler = some name ∧ TransformRule.ofName? name = none ∧ e = .unknownCompiler d.id name origin := by
  cases hcompiler : d.compiler with
  | none => simp [transformOf, hcompiler] at h
  | some name => cases hname : TransformRule.ofName? name <;> simp_all [transformOf]

/-- A rule that is accepted is found by its name. -/
theorem known_of_transformOf {d : TransformDecl} {transform : Option Transform} (h : transformOf d origin = .ok transform) :
    (Declaration.transform d).Known ∧ transform = (d.compiler.bind TransformRule.ofName?).map .rule := by
  cases hcompiler : d.compiler with
  | none => simp_all [transformOf, Declaration.Known]
  | some name => cases hname : TransformRule.ofName? name <;> simp_all [transformOf, Declaration.Known]

/-- A declaration that is made was known and new, and is all that is added. -/
theorem adds_of_declare (h : r.declare origin d = .ok r') : d.Known ∧ r.held? d.name = none ∧ Adds r r' origin [d] := by
  cases d with
  | block d =>
    obtain ⟨lowering, hlowering, hblock, rfl⟩ := declare_block_eq_ok.1 h
    obtain ⟨hknown, rfl⟩ := known_of_loweringOf hlowering
    have hnew : r.held? (Declaration.block d).name = none := congrArg (Option.map _) hblock
    refine ⟨hknown, hnew, adds_of_held? hnew fun name => ?_⟩
    cases name with
    | transform kind id => cases kind <;> rfl
    | block type =>
      by_cases htype : type = d.type <;> simp [held?, block?, Dict.get?_insert, Declaration.name, Declaration.entry, htype]
  | transform d =>
    obtain ⟨transform, htransform, hfree, rfl⟩ := declare_transform_eq_ok.1 h
    obtain ⟨hknown, rfl⟩ := known_of_transformOf htransform
    have hnew : r.held? (Declaration.transform d).name = none := congrArg (Option.map _) hfree
    refine ⟨hknown, hnew, adds_of_held? hnew fun name => ?_⟩
    cases name with
    | block type => simp [held?, block?, blocks_putTransforms, Declaration.name]
    | transform kind id =>
      by_cases hkind : kind = d.kind
      · subst hkind
        by_cases hid : id = d.id <;>
          simp [held?, transform?, transforms_putTransforms, Dict.get?_insert, Declaration.name, Declaration.entry, hid]
      · simp [held?, transform?, transforms_putTransforms, Declaration.name, hkind]

/-- A block type is refused if its lowering is unknown or its name is taken. -/
theorem declare_block_eq_error {d : BlockDecl} (h : r.declare origin (.block d) = .error e) :
    loweringOf d origin = .error e
      ∨ (Declaration.block d).Known ∧ ∃ held, r.block? d.type = some held ∧ e = .duplicateBlock d.type held.origin origin := by
  cases hlowering : loweringOf d origin with
  | error e' =>
    exact .inl (by simpa [declare, hlowering, bind, Except.bind] using h)
  | ok lowering =>
    refine .inr ⟨(known_of_loweringOf hlowering).1, ?_⟩
    have hadd : r.addBlock d lowering origin = .error e := by rwa [declare, hlowering] at h
    unfold addBlock at hadd
    cases hheld : r.block? d.type with
    | none => simp [hheld] at hadd
    | some held =>
      rw [hheld] at hadd
      exact ⟨held, rfl, (Except.error.inj hadd).symm⟩

/-- A transform is refused if its rule is unknown or its name is taken. -/
theorem declare_transform_eq_error {d : TransformDecl} (h : r.declare origin (.transform d) = .error e) :
    transformOf d origin = .error e ∨ (Declaration.transform d).Known
      ∧ ∃ held, r.transform? d.kind d.id = some held ∧ e = .duplicateTransform d.id held.origin origin := by
  cases htransform : transformOf d origin with
  | error e' =>
    exact .inl (by simpa [declare, htransform, bind, Except.bind] using h)
  | ok transform =>
    refine .inr ⟨(known_of_transformOf htransform).1, ?_⟩
    have hadd : r.addTransform d transform origin = .error e := by rwa [declare, htransform] at h
    unfold addTransform at hadd
    cases hheld : r.transform? d.kind d.id with
    | none =>
      rw [hheld] at hadd
      cases hkind : d.kind <;> simp [hkind] at hadd
    | some held =>
      rw [hheld] at hadd
      exact ⟨held, rfl, (Except.error.inj hadd).symm⟩

/-- A declaration that is refused after others were made offends. -/
theorem offends_of_declare (hadds : Adds r r' origin before) (h : r'.declare origin d = .error e) : r.Offends origin before d e := by
  cases d with
  | block d =>
    rcases declare_block_eq_error h with h | ⟨hknown, held, hheld, rfl⟩
    · obtain ⟨name, hnames, hunknown, rfl⟩ := loweringOf_eq_error h
      exact .unknownLowering hnames hunknown
    · have hentry : r'.held? (.block d.type) = some (.block held) := congrArg (Option.map _) hheld
      rcases hadds.cases_of_held? hentry with hbefore | ⟨hnew, hdeclared, horigin⟩
      · exact .heldBlock hknown (by simpa [held?] using hbefore)
      · rw [show held.origin = origin from horigin]
        exact .repeatedBlock hknown (by simpa [held?] using hnew) hdeclared
  | transform d =>
    rcases declare_transform_eq_error h with h | ⟨hknown, held, hheld, rfl⟩
    · obtain ⟨name, hnames, hunknown, rfl⟩ := transformOf_eq_error h
      exact .unknownCompiler hnames hunknown
    · have hentry : r'.held? (.transform d.kind d.id) = some (.transform held) := congrArg (Option.map _) hheld
      rcases hadds.cases_of_held? hentry with hbefore | ⟨hnew, hdeclared, horigin⟩
      · exact .heldTransform hknown (by simpa [held?] using hbefore)
      · rw [show held.origin = origin from horigin]
        exact .repeatedTransform hknown (by simpa [held?] using hnew) hdeclared

/-! ## Declarations in order -/

/-- Declarations are made up to the first that is refused. -/
theorem declareAll_cases (r : Registry) (origin : String) (ds : List Declaration) :
    ∃ before, r.Admits before ∧ Adds r (r.declareAll origin ds).1 origin before
      ∧ (before = ds ∧ (r.declareAll origin ds).2 = none
        ∨ ∃ d after e, ds = before ++ d :: after ∧ (r.declareAll origin ds).1.declare origin d = .error e
          ∧ (r.declareAll origin ds).2 = some e) := by
  induction ds generalizing r with
  | nil => exact ⟨[], r.admits_nil, r.adds_nil origin, .inl ⟨rfl, rfl⟩⟩
  | cons d rest ih =>
    rw [declareAll]
    cases hdeclare : r.declare origin d with
    | error e => exact ⟨[], r.admits_nil, r.adds_nil origin, .inr ⟨d, rest, e, rfl, hdeclare, rfl⟩⟩
    | ok r' =>
      obtain ⟨hknown, hnew, hadds⟩ := adds_of_declare hdeclare
      obtain ⟨before, hadmits, hrest, hcases⟩ := ih r'
      refine ⟨d :: before, hadmits.cons hknown hnew hadds, hadds.cons hrest, ?_⟩
      rcases hcases with ⟨rfl, hnone⟩ | ⟨d', after, e, rfl, hrefused⟩
      · exact .inl ⟨rfl, hnone⟩
      · exact .inr ⟨d', after, e, rfl, hrefused⟩

-- what is unknown is said first, also of a name that is taken
example : (empty.declareAll "m" [.block { type := "Meter" }, .block { type := "Meter", lowering := some "meter" }]).2.map (·.message)
    = some "m: block type 'Meter' names unknown lowering 'meter'" := by decide +kernel

/-- Declarations that can all be made are made. -/
theorem Admits.declareAll (h : r.Admits ds) (origin : String) :
    Adds r (r.declareAll origin ds).1 origin ds ∧ (r.declareAll origin ds).2 = none := by
  obtain ⟨before, -, hadds, ⟨rfl, hnone⟩ | ⟨d, after, e, rfl, hrefused, -⟩⟩ := r.declareAll_cases origin ds
  · exact ⟨hadds, hnone⟩
  · exact absurd (offends_of_declare hadds hrefused) h.not_offends

/-- Of other declarations, those before the first that offends are made. -/
theorem declareAll_of_not_admits (h : ¬r.Admits ds) (origin : String) :
    ∃ before d after e, ds = before ++ d :: after ∧ r.Admits before ∧ r.Offends origin before d e
      ∧ Adds r (r.declareAll origin ds).1 origin before ∧ (r.declareAll origin ds).2 = some e := by
  obtain ⟨before, hadmits, hadds, ⟨rfl, -⟩ | ⟨d, after, e, hds, hrefused, he⟩⟩ := r.declareAll_cases origin ds
  · exact absurd hadmits h
  · exact ⟨before, d, after, e, hds, hadmits, offends_of_declare hadds hrefused, hadds, he⟩

/-! ## Manifests in order -/

/-- A text that is no manifest leaves the registry as it is. -/
theorem load_of_error {text : String} {problem : Json.Problem} (h : Manifest.ofText text = .error problem) (r : Registry)
    (origin : String) : r.load text origin = (r, .error (.manifest origin problem)) := by
  rw [load, h]

/-- To load a manifest is to make its declarations in order. -/
theorem load_of_ok {text : String} {m : Manifest} (h : Manifest.ofText text = .ok m) (r : Registry) (origin : String) :
    r.load text origin = ((r.declareAll origin m.declarations).1,
      (r.declareAll origin m.declarations).2.elim (.ok m.declarations.length) .error) := by
  simp only [load, h]
  rcases r.declareAll origin m.declarations with ⟨r', none | e⟩ <;> rfl

/-- Load texts from their origins one after the other, each into what the one before it left. -/
def loadEach (r : Registry) (manifests : List (String × String)) : Registry :=
  manifests.foldl (fun r m => (r.load m.1 m.2).1) r

/-- A text adds some declarations, or nothing. -/
theorem exists_adds_load (r : Registry) (text origin : String) : ∃ ds, Adds r (r.load text origin).1 origin ds := by
  cases htext : Manifest.ofText text with
  | error problem =>
    rw [load_of_error htext]
    exact ⟨[], r.adds_nil origin⟩
  | ok m =>
    obtain ⟨before, -, hadds, -⟩ := r.declareAll_cases origin m.declarations
    rw [load_of_ok htext]
    exact ⟨before, hadds⟩

/-- What is held stays as it is, whatever is loaded. -/
theorem held?_loadEach {name : DeclarationName} {entry : RegistryEntry} (h : r.held? name = some entry)
    (manifests : List (String × String)) : (r.loadEach manifests).held? name = some entry := by
  induction manifests generalizing r with
  | nil => exact h
  | cons m rest ih =>
    obtain ⟨ds, hadds⟩ := r.exists_adds_load m.1 m.2
    exact ih (hadds.held?_eq_some h)

/-- A text that holds no manifest changes nothing. The declarations of a manifest are all made, and counted, if they name nothing unknown
and their names are new and distinct. Otherwise those before the first that offends are made, and its offence is the error. Whatever is
loaded, an entry stays as it is. -/
theorem load_first_wins (r : Registry) (text origin : String) :
    (∀ problem, Manifest.ofText text = .error problem → r.load text origin = (r, .error (.manifest origin problem)))
      ∧ (∀ m, Manifest.ofText text = .ok m →
        (∀ n, (r.load text origin).2 = .ok n ↔ n = m.blocks.length + m.transforms.length ∧ r.Admits m.declarations)
          ∧ (r.Admits m.declarations → Adds r (r.load text origin).1 origin m.declarations)
          ∧ (¬r.Admits m.declarations → ∃ before d after e, m.declarations = before ++ d :: after ∧ r.Admits before
            ∧ r.Offends origin before d e ∧ (r.load text origin).2 = .error e ∧ Adds r (r.load text origin).1 origin before))
      ∧ ∀ manifests name entry, r.held? name = some entry → (r.loadEach manifests).held? name = some entry := by
  refine ⟨fun problem h => load_of_error h r origin, fun m h => ?_, fun manifests name entry h => held?_loadEach h manifests⟩
  rw [load_of_ok h]
  have hcount : m.declarations.length = m.blocks.length + m.transforms.length := by simp [Manifest.declarations]
  by_cases hadmits : r.Admits m.declarations
  · obtain ⟨hadds, hnone⟩ := hadmits.declareAll origin
    refine ⟨fun n => ?_, fun _ => hadds, fun hnot => absurd hadmits hnot⟩
    simp [hnone, hcount, hadmits, eq_comm]
  · obtain ⟨before, d, after, e, hds, hbefore, hoffends, hadds, he⟩ := declareAll_of_not_admits hadmits origin
    refine ⟨fun n => ?_, fun h => absurd h hadmits, fun _ => ⟨before, d, after, e, hds, hbefore, hoffends, ?_, hadds⟩⟩
    · simp [he, hadmits]
    · simp [he]

end Registry

end PatchGraph
