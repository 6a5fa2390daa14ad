import PatchGraph.Proofs.Patch.RoundTrip
import PatchGraph.Registry.Manifest

/-!
# Decoding what a manifest is written as

The only doubles of a manifest are in the defaults of its inputs. A decoded manifest is restored if and only if they are read back
(`Manifest.restored_iff_readsBack`), and two decoded manifests with the same text are equal in any case (`Manifest.toJson_injective`).
-/

namespace PatchGraph

open Json (Decoded Ensures RecordField Restored Source bind_eq_ok map_eq_ok)

/-! ## Names -/

theorem restored_string (s : String) : Restored Source.decodeString Json.str s := rfl

/-- Worlds are read back from their names. -/
theorem World.restored (w : World) : Restored (Source.decodeChoice table) (fun w => .str w.name) w := by
  cases w <;> rfl

/-- Domains are read back from their names. -/
theorem Domain.restored (d : Domain) : Restored (Source.decodeChoice table) (fun d => .str d.name) d := by
  cases d <;> rfl

/-- Kinds of time roots are read back from their names. -/
theorem TimeRootKind.restored (k : TimeRootKind) : Restored (Source.decodeChoice table) (fun k => .str k.name) k := by
  cases k <;> rfl

/-- A policy holds no values, so it is always restored. -/
theorem CombinePolicy.restored (p : CombinePolicy) (depth : Nat) : Restored (decode depth) toJson p := by
  rcases p with ⟨w, m⟩
  cases w <;> cases m <;> rfl

/-- An effect on types is always restored. -/
theorem TypeEffect.restored (e : TypeEffect) (depth : Nat) : Restored (decode depth) toJson e := by
  have hworld : Json.storeAll fields (depth + 1) {} (Json.member? "world" (fun w => .str w.name) e.world) = .ok ⟨e.world, none⟩ :=
    Json.storeAll_member? (Source.decodeChoice World.table) (TypeEffect.mk · none) rfl (fun _ => rfl)
      (fun _ _ h => by cases h) fun w _ => w.restored
  have hdomain : Json.storeAll fields (depth + 1) ⟨e.world, none⟩ (Json.member? "domain" (fun d => .str d.name) e.domain) = .ok e :=
    Json.storeAll_member? (Source.decodeChoice Domain.table) (TypeEffect.mk e.world) rfl (fun _ => rfl)
      (fun _ _ h => by cases h) fun d _ => d.restored
  rw [Restored, decode, toJson, Json.decodeRecord_ofJson, Json.storeAll_append, hworld, Json.ok_bind, hdomain]
  · simp [fields]
  · simpa [fields] using (Json.keys_member? "world" (fun w : World => .str w.name) e.world).append
      (Json.keys_member? "domain" (fun d : Domain => .str d.name) e.domain)
  · simp [fields]

/-! ## Ports -/

/-- The declaration of an output is always restored. -/
theorem OutputDecl.restored (d : OutputDecl) (depth : Nat) : Restored (decode depth) toJson d := rfl

/-- The declaration of an input is restored if its default is. -/
theorem InputDecl.restored_iff {d : InputDecl} {depth : Nat} :
    Restored (decode depth) toJson d ↔ ∀ v ∈ d.default, Restored (Value.decode (depth + 1)) Value.toJson v := by
  have hfirst : Json.storeAll fields (depth + 1) ⟨"", "", none, none, false⟩ [("id", .str d.id), ("type", .str d.type)]
      = .ok ⟨d.id, d.type, none, none, false⟩ := rfl
  have hdefault : Json.storeAll fields (depth + 1) ⟨d.id, d.type, none, none, false⟩ (Json.member? "default" Value.toJson d.default)
      = (Source.decodeOption (Value.decode (depth + 1)) (.ofJson (Json.optional Value.toJson d.default))).map
        fun default => ⟨d.id, d.type, default, none, false⟩ :=
    Json.storeAll_part rfl (fun _ => rfl) (Json.member?_eq "default" Value.toJson d.default) fun h => by rw [h]; rfl
  have hcombine : ∀ default, Json.storeAll fields (depth + 1) ⟨d.id, d.type, default, none, false⟩
      (Json.member? "combine" CombinePolicy.toJson d.combine) = .ok ⟨d.id, d.type, default, d.combine, false⟩ := fun default =>
    Json.storeAll_member? (CombinePolicy.decode (depth + 1)) (InputDecl.mk d.id d.type default · false) rfl (fun _ => rfl)
      (fun _ _ h => by cases h) fun p _ => p.restored _
  have hoptional : ∀ default, Json.storeAll fields (depth + 1) ⟨d.id, d.type, default, d.combine, false⟩
      (Json.flag? "optional" d.optional) = .ok ⟨d.id, d.type, default, d.combine, d.optional⟩ := fun default =>
    Json.storeAll_flag? (InputDecl.mk d.id d.type default d.combine) rfl (fun _ => rfl) d.optional
  rw [← Json.restored_option fun v _ => by simp [Value.decode, Value.ofSource?, Source.holdingFault, bind_eq_ok]]
  rw [Restored, decode, toJson, Json.decodeRecord_ofJson]
  · simp only [List.append_assoc, Json.storeAll_append, hfirst, hdefault, hcombine, hoptional, Json.ok_bind, Json.map_bind, bind_eq_ok]
    rcases d
    simp [Restored]
  · simp [fields]
  · simpa [fields] using ((Json.keys_member? "default" Value.toJson d.default).append
      (Json.keys_member? "combine" CombinePolicy.toJson d.combine)).append (Json.keys_flag? "optional" d.optional)
  · simp [fields]

/-! ## Declarations -/

/-- The declaration of a block is restored if its inputs are. -/
theorem BlockDecl.restored_iff {d : BlockDecl} {depth : Nat} :
    Restored (decode depth) toJson d ↔ ∀ i ∈ d.inputs, Restored (InputDecl.decode (depth + 2)) InputDecl.toJson i := by
  have htype : ∀ rest, Json.storeAll fields (depth + 1) ⟨"", [], [], false, none, none⟩ (("type", .str d.type) :: rest)
      = Json.storeAll fields (depth + 1) ⟨d.type, [], [], false, none, none⟩ rest := fun _ => rfl
  have hinputs : ∀ rest, Json.storeAll fields (depth + 1) ⟨d.type, [], [], false, none, none⟩
      (("inputs", .arr (d.inputs.map InputDecl.toJson)) :: rest)
        = Source.decodeList (InputDecl.decode (depth + 2)) (.ofJson (.arr (d.inputs.map InputDecl.toJson))) >>= fun inputs =>
          Json.storeAll fields (depth + 1) ⟨d.type, inputs, [], false, none, none⟩ rest :=
    Json.storeAll_cons rfl (fun _ => rfl) _
  have houtputs : ∀ inputs rest, Json.storeAll fields (depth + 1) ⟨d.type, inputs, [], false, none, none⟩
      (("outputs", .arr (d.outputs.map OutputDecl.toJson)) :: rest)
        = Json.storeAll fields (depth + 1) ⟨d.type, inputs, d.outputs, false, none, none⟩ rest := by
    intro inputs rest
    have hrestored : Restored (Source.decodeList (OutputDecl.decode (depth + 2))) (fun ds => .arr (ds.map OutputDecl.toJson))
        d.outputs := Json.restored_list.2 fun o _ => o.restored _
    rw [Json.storeAll_cons rfl (fun _ => rfl), hrestored, Json.ok_bind]
  have hboundary : ∀ inputs, Json.storeAll fields (depth + 1) ⟨d.type, inputs, d.outputs, false, none, none⟩
      (Json.flag? "stateBoundary" d.stateBoundary) = .ok ⟨d.type, inputs, d.outputs, d.stateBoundary, none, none⟩ := fun inputs =>
    Json.storeAll_flag? (BlockDecl.mk d.type inputs d.outputs · none none) rfl (fun _ => rfl) d.stateBoundary
  have htimeRoot : ∀ inputs, Json.storeAll fields (depth + 1) ⟨d.type, inputs, d.outputs, d.stateBoundary, none, none⟩
      (Json.member? "timeRoot" (fun k => .str k.name) d.timeRoot)
        = .ok ⟨d.type, inputs, d.outputs, d.stateBoundary, d.timeRoot, none⟩ := fun inputs =>
    Json.storeAll_member? (Source.decodeChoice TimeRootKind.table) (BlockDecl.mk d.type inputs d.outputs d.stateBoundary · none) rfl
      (fun _ => rfl) (fun _ _ h => by cases h) fun k _ => k.restored
  have hlowering : ∀ inputs, Json.storeAll fields (depth + 1) ⟨d.type, inputs, d.outputs, d.stateBoundary, d.timeRoot, none⟩
      (Json.member? "lowering" Json.str d.lowering)
        = .ok ⟨d.type, inputs, d.outputs, d.stateBoundary, d.timeRoot, d.lowering⟩ := fun inputs =>
    Json.storeAll_member? Source.decodeString (BlockDecl.mk d.type inputs d.outputs d.stateBoundary d.timeRoot) rfl
      (fun _ => rfl) (fun _ _ h => by cases h) fun name _ => restored_string name
  rw [← Json.restored_list, Restored, decode, toJson, Json.decodeRecord_ofJson]
  · simp only [List.cons_append, List.nil_append, List.append_assoc, htype, hinputs, houtputs, Json.storeAll_append, hboundary,
      htimeRoot, hlowering, Json.ok_bind, bind_eq_ok]
    rcases d
    simp [Restored]
  · simp [fields]
  · simpa [fields] using ((Json.keys_flag? "stateBoundary" d.stateBoundary).append
      (Json.keys_member? "timeRoot" (fun k : TimeRootKind => .str k.name) d.timeRoot)).append
      (Json.keys_member? "lowering" Json.str d.lowering)
  · simp [fields]

/-- The declaration of a transform is always restored. -/
theorem TransformDecl.restored (d : TransformDecl) (depth : Nat) : Restored (decode depth) toJson d := by
  have hfirst : Json.storeAll fields (depth + 1) ⟨"", .adapter, {}, none⟩
      [("id", .str d.id), ("kind", .str d.kind.name), ("effect", d.effect.toJson)] = .ok ⟨d.id, d.kind, d.effect, none⟩ := by
    have hkind : Json.storeAll fields (depth + 1) ⟨"", .adapter, {}, none⟩ [("id", .str d.id), ("kind", .str d.kind.name)]
        = .ok ⟨d.id, d.kind, {}, none⟩ := by
      cases d.kind <;> rfl
    have heffect : Json.storeAll fields (depth + 1) ⟨d.id, d.kind, {}, none⟩ [("effect", d.effect.toJson)]
        = .ok ⟨d.id, d.kind, d.effect, none⟩ := by
      rw [Json.storeAll_part rfl (fun _ => rfl) (.inl rfl) False.elim, d.effect.restored]
      rfl
    exact (Json.storeAll_append _ [_, _] [_]).trans (by rw [hkind, Json.ok_bind, heffect])
  have hcompiler : Json.storeAll fields (depth + 1) ⟨d.id, d.kind, d.effect, none⟩ (Json.member? "compiler" Json.str d.compiler)
      = .ok d :=
    Json.storeAll_member? Source.decodeString (TransformDecl.mk d.id d.kind d.effect) rfl (fun _ => rfl)
      (fun _ _ h => by cases h) fun name _ => restored_string name
  rw [Restored, decode, toJson, Json.decodeRecord_ofJson, Json.storeAll_append, hfirst, Json.ok_bind, hcompiler]
  · simp [fields]
  · simpa [fields] using Json.keys_member? "compiler" Json.str d.compiler
  · simp [fields]

/-! ## Manifests -/

/-- A manifest is restored if its blocks are. -/
theorem Manifest.restored_iff {m : Manifest} :
    Restored decode toJson m ↔ ∀ d ∈ m.blocks, Restored (BlockDecl.decode 2) BlockDecl.toJson d := by
  have htransforms : Restored (Source.decodeList (TransformDecl.decode 2)) (fun ds => .arr (ds.map TransformDecl.toJson))
      m.transforms := Json.restored_list.2 fun d _ => d.restored _
  have hmembers : Json.storeAll fields 1 {} [("blocks", .arr (m.blocks.map BlockDecl.toJson)),
      ("transforms", .arr (m.transforms.map TransformDecl.toJson))]
        = Source.decodeList (BlockDecl.decode 2) (.ofJson (.arr (m.blocks.map BlockDecl.toJson))) >>= fun blocks =>
          (Source.decodeList (TransformDecl.decode 2) (.ofJson (.arr (m.transforms.map TransformDecl.toJson)))).map
            fun transforms => ⟨blocks, transforms⟩ :=
    (Json.storeAll_cons rfl (fun _ => rfl) _ _).trans <| bind_congr fun _ =>
      Json.storeAll_part rfl (fun _ => rfl) (.inl rfl) False.elim
  rw [← Json.restored_list, Restored, decode, toJson, Json.decodeRecord_ofJson, hmembers, htransforms]
  · simp only [bind_eq_ok, map_eq_ok]
    rcases m
    simp [Restored]
  · simp [fields]
  · simp [fields]
  · simp [fields]

/-- The defaults of a block type's inputs. -/
def BlockDecl.values (d : BlockDecl) : List Value := d.inputs.flatMap fun i => i.default.toList

/-- The values of a manifest. -/
def Manifest.values (m : Manifest) : List Value := m.blocks.flatMap BlockDecl.values

/-- The doubles of a manifest. -/
def Manifest.doubles (m : Manifest) : List Binary64 := m.values.flatMap Value.doubles

/-- The values of a declaration are the defaults of its inputs. -/
theorem BlockDecl.forall_mem_values {d : BlockDecl} {P : Value → Prop} :
    (∀ v ∈ d.values, P v) ↔ ∀ i ∈ d.inputs, ∀ v ∈ i.default, P v := by
  simp only [values, List.forall_mem_flatMap, Option.mem_toList, Option.mem_def]

/-- A decoded input has a default that can be stored. -/
theorem InputDecl.ensures_decode (depth : Nat) : Ensures (decode depth) fun d => ∀ v ∈ d.default, v.Storable := by
  refine Ensures.decodeRecord ?_ _ (fun _ hv => absurd hv (Option.not_mem_none _)) depth
  simp only [fields, List.mem_cons, List.not_mem_nil, or_false, forall_eq_or_imp, forall_eq]
  exact ⟨fun _ _ h => .of_map fun _ => h, fun _ _ h => .of_map fun _ => h,
    fun depth _ _ => (Value.ensures_decode depth).decodeOption.map fun _ hdefault => hdefault,
    fun _ _ h => .of_map fun _ => h, fun _ _ h => .of_map fun _ => h⟩

/-- A decoded block has defaults that can be stored. -/
theorem BlockDecl.ensures_decode (depth : Nat) : Ensures (decode depth) fun d => ∀ v ∈ d.values, v.Storable := by
  refine Ensures.decodeRecord ?_ _ (fun _ hv => absurd hv List.not_mem_nil) depth
  simp only [fields, forall_mem_values, List.mem_cons, List.not_mem_nil, or_false, forall_eq_or_imp, forall_eq]
  exact ⟨fun _ _ h => .of_map fun _ => h, fun _ _ _ => (InputDecl.ensures_decode _).decodeList.map fun _ hinputs => hinputs,
    fun _ _ h => .of_map fun _ => h, fun _ _ h => .of_map fun _ => h, fun _ _ h => .of_map fun _ => h,
    fun _ _ h => .of_map fun _ => h⟩

/-- The values of every decoded manifest can be stored. -/
theorem Manifest.ensures_decode : Ensures decode fun m => ∀ v ∈ m.values, v.Storable := by
  refine Ensures.decodeRecord ?_ _ (fun _ hv => absurd hv List.not_mem_nil) 0
  simp only [fields, values, List.forall_mem_flatMap, List.mem_cons, List.not_mem_nil, or_false, forall_eq_or_imp, forall_eq]
  exact ⟨fun _ _ _ => (BlockDecl.ensures_decode _).decodeList.map fun _ hblocks => hblocks, fun _ _ h => .of_map fun _ => h⟩

/-- The values of a manifest that was read can be stored. -/
theorem Manifest.storable_of_ofText {text : String} {m : Manifest} (h : ofText text = .ok m) : ∀ v ∈ m.values, v.Storable :=
  ensures_decode.of_document h

/-- A manifest whose values can be stored is restored if and only if its doubles are read back. -/
theorem Manifest.restored_iff_readsBack {m : Manifest} (h : ∀ v ∈ m.values, v.Storable) :
    Restored decode toJson m ↔ ∀ x ∈ m.doubles, x.ReadsBack := by
  have hvalues : (∀ x ∈ m.doubles, x.ReadsBack) ↔ ∀ v ∈ m.values, Restored (Value.decode 5) Value.toJson v := by
    rw [doubles, List.forall_mem_flatMap]
    exact forall₂_congr fun v hv => (Value.restored_iff (h v hv) (by decide)).symm
  simp only [hvalues, restored_iff, BlockDecl.restored_iff, InputDecl.restored_iff, values, List.forall_mem_flatMap,
    BlockDecl.forall_mem_values]

/-! ## One manifest for each text -/

/-- The declaration of an input can be written. -/
theorem InputDecl.writable_toJson (d : InputDecl) : d.toJson.Writable := by
  have hcombine : ∀ p : CombinePolicy, p.toJson.Writable := by
    intro p
    simp only [CombinePolicy.toJson, Json.writable_obj, List.forall_mem_cons]
    exact ⟨Json.writable_str _, Json.writable_str _, List.forall_mem_nil _⟩
  simp only [toJson, Json.writable_obj, List.forall_mem_append, List.forall_mem_cons]
  exact ⟨⟨⟨⟨Json.writable_str _, Json.writable_str _, List.forall_mem_nil _⟩,
    Json.writable_member? (fun v _ => v.writable_toJson) _⟩, Json.writable_member? (fun p _ => hcombine p) _⟩, Json.writable_flag? _ _⟩

/-- The declaration of an output can be written. -/
theorem OutputDecl.writable_toJson (d : OutputDecl) : d.toJson.Writable := by
  simp only [toJson, Json.writable_obj, List.forall_mem_cons]
  exact ⟨Json.writable_str _, Json.writable_str _, List.forall_mem_nil _⟩

/-- The declaration of a block can be written. -/
theorem BlockDecl.writable_toJson (d : BlockDecl) : d.toJson.Writable := by
  simp only [toJson, Json.writable_obj, List.forall_mem_append, List.forall_mem_cons, Json.writable_arr, List.forall_mem_map]
  exact ⟨⟨⟨⟨Json.writable_str _, fun i _ => i.writable_toJson, fun o _ => o.writable_toJson, List.forall_mem_nil _⟩,
    Json.writable_flag? _ _⟩, Json.writable_member? (fun _ _ => Json.writable_str _) _⟩,
    Json.writable_member? (fun _ _ => Json.writable_str _) _⟩

/-- The declaration of a transform can be written. -/
theorem TransformDecl.writable_toJson (d : TransformDecl) : d.toJson.Writable := by
  have heffect : d.effect.toJson.Writable := by
    simp only [TypeEffect.toJson, Json.writable_obj, List.forall_mem_append]
    exact ⟨Json.writable_member? (fun _ _ => Json.writable_str _) _, Json.writable_member? (fun _ _ => Json.writable_str _) _⟩
  simp only [toJson, Json.writable_obj, List.forall_mem_append, List.forall_mem_cons]
  exact ⟨⟨Json.writable_str _, Json.writable_str _, heffect, List.forall_mem_nil _⟩,
    Json.writable_member? (fun _ _ => Json.writable_str _) _⟩

/-- Every manifest can be written. -/
theorem Manifest.writable_toJson (m : Manifest) : m.toJson.Writable := by
  simp only [toJson, Json.writable_obj, List.forall_mem_cons, Json.writable_arr, List.forall_mem_map]
  exact ⟨fun d _ => d.writable_toJson, fun d _ => d.writable_toJson, List.forall_mem_nil _⟩

/-- Inputs that are written alike are equal, if their defaults can be stored. -/
theorem InputDecl.toJson_injective {d e : InputDecl} (hd : ∀ v ∈ d.default, v.Storable) (he : ∀ v ∈ e.default, v.Storable)
    (h : d.toJson = e.toJson) : d = e := by
  simp only [toJson, Json.obj.injEq, List.cons_append, List.nil_append, List.append_assoc, List.cons.injEq, Prod.mk.injEq,
    Json.str.injEq, true_and] at h
  obtain ⟨hid, htype, h⟩ := h
  have hkeys : ∀ d : InputDecl, ((Json.member? "combine" CombinePolicy.toJson d.combine
      ++ Json.flag? "optional" d.optional).map (·.1)).Sublist ["combine", "optional"] := by
    intro d
    rw [List.map_append]
    exact (Json.keys_member? "combine" _ _).append (Json.keys_flag? "optional" _)
  obtain ⟨hdefault, h⟩ := append_injective_of_key (by simp) (Json.keys_member? "default" _ _) (Json.keys_member? "default" _ _)
    (hkeys d) (hkeys e) h
  obtain ⟨hcombine, hoptional⟩ := append_injective_of_key (by simp) (Json.keys_member? "combine" _ _)
    (Json.keys_member? "combine" _ _) (Json.keys_flag? "optional" _) (Json.keys_flag? "optional" _) h
  have hdefault := Json.member?_injective (fun v hv w hw => Value.toJson_injective (hd v hv) (he w hw)) hdefault
  have hcombine := Json.member?_injective (fun p _ q _ => (p.restored 0).injective (q.restored 0)) hcombine
  have hoptional := Json.flag?_injective hoptional
  cases d
  cases e
  simp_all

/-- Blocks that are written alike are equal, if their defaults can be stored. -/
theorem BlockDecl.toJson_injective {d e : BlockDecl} (hd : ∀ v ∈ d.values, v.Storable) (he : ∀ v ∈ e.values, v.Storable)
    (h : d.toJson = e.toJson) : d = e := by
  rw [forall_mem_values] at hd he
  simp only [toJson, Json.obj.injEq, List.cons_append, List.nil_append, List.append_assoc, List.cons.injEq, Prod.mk.injEq,
    Json.str.injEq, Json.arr.injEq, true_and] at h
  obtain ⟨htype, hinputs, houtputs, h⟩ := h
  have hkeys : ∀ d : BlockDecl, ((Json.member? "timeRoot" (fun k => .str k.name) d.timeRoot
      ++ Json.member? "lowering" Json.str d.lowering).map (·.1)).Sublist ["timeRoot", "lowering"] := by
    intro d
    rw [List.map_append]
    exact (Json.keys_member? "timeRoot" _ _).append (Json.keys_member? "lowering" _ _)
  obtain ⟨hboundary, h⟩ := append_injective_of_key (by simp) (Json.keys_flag? "stateBoundary" _)
    (Json.keys_flag? "stateBoundary" _) (hkeys d) (hkeys e) h
  obtain ⟨htimeRoot, hlowering⟩ := append_injective_of_key (by simp) (Json.keys_member? "timeRoot" _ _)
    (Json.keys_member? "timeRoot" _ _) (Json.keys_member? "lowering" _ _) (Json.keys_member? "lowering" _ _) h
  have hinputs := eq_of_map_eq (fun i hi j hj => InputDecl.toJson_injective (hd i hi) (he j hj)) hinputs
  have houtputs := eq_of_map_eq (fun o _ q _ => (o.restored 0).injective (q.restored 0)) houtputs
  have hboundary := Json.flag?_injective hboundary
  have htimeRoot := Json.member?_injective (fun k _ l _ => k.restored.injective l.restored) htimeRoot
  have hlowering := Json.member?_injective (fun a _ b _ => (restored_string a).injective (restored_string b)) hlowering
  cases d
  cases e
  simp_all

/-- Manifests whose values can be stored are told by what they are written as. -/
theorem Manifest.toJson_injective {m n : Manifest} (hm : ∀ v ∈ m.values, v.Storable) (hn : ∀ v ∈ n.values, v.Storable)
    (h : m.toJson = n.toJson) : m = n := by
  rw [values, List.forall_mem_flatMap] at hm hn
  simp only [toJson, Json.obj.injEq, List.cons.injEq, Prod.mk.injEq, Json.arr.injEq, true_and, and_true] at h
  have hblocks := eq_of_map_eq (fun d hd e he => BlockDecl.toJson_injective (hm d hd) (hn e he)) h.1
  have htransforms := eq_of_map_eq (fun d _ e _ => (d.restored 0).injective (e.restored 0)) h.2
  cases m
  cases n
  simp_all

/-- The text of a manifest is read as the manifest if and only if its doubles are read back. -/
theorem Manifest.ofText_compact_iff {m : Manifest} (h : ∀ v ∈ m.values, v.Storable) :
    ofText m.toJson.compact = .ok m ↔ ∀ x ∈ m.doubles, x.ReadsBack := by
  rw [ofText, Json.decode_compact m.writable_toJson]
  exact restored_iff_readsBack h

end PatchGraph
