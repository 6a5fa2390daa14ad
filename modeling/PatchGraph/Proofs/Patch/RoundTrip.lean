import PatchGraph.Proofs.Json.Compact
import PatchGraph.Proofs.Patch.Restored

/-!
# Reading the canonical text of a patch

The canonical text of a decoded patch is read as the patch if and only if each double of the patch is read back from its shortest
decimal. Reading may miss a double with many digits by one place, but writing does not: two decoded patches with the same canonical
text are equal in any case (`ofText_canonicalText_iff`).
-/

namespace PatchGraph

open Json (Restored Source)

/-! ## Texts -/

/-- Every value can be written; doubles that are not finite are written as null. -/
theorem Value.writable_toJson (v : Value) : v.toJson.Writable := by
  cases v with
  | bool b => exact Json.writable_bool b
  | int i => exact Json.writable_int i
  | float x => exact Json.writable_float x
  | vector xs => exact Json.writable_arr.2 (List.forall_mem_map.2 fun x _ => Json.writable_float x)
  | text s => exact Json.writable_str s

/-- Every table of values can be written. -/
theorem Dict.writable_toJson (d : Dict Value) : d.toJson.Writable :=
  Json.writable_obj.2 (List.forall_mem_map.2 fun e _ => e.2.writable_toJson)

/-- So can a table that is left out where it is empty. -/
theorem Dict.writable_member? (key : String) (d : Dict Value) : ∀ m ∈ d.member? key, m.2.Writable := by
  rcases d.member?_eq key with h | ⟨h, -⟩
  · rw [h]
    exact List.forall_mem_singleton.2 d.writable_toJson
  · rw [h]
    exact List.forall_mem_nil _

/-- Every block can be written. -/
theorem Block.writable_toJson (b : Block) : b.toJson.Writable := by
  simp only [toJson, Json.writable_obj, List.forall_mem_append, List.forall_mem_cons]
  exact ⟨⟨⟨Json.writable_str _, Json.writable_str _, List.forall_mem_nil _⟩, b.params.writable_member? _⟩,
    b.defaults.writable_member? _⟩

/-- Every bus can be written. -/
theorem Bus.writable_toJson (b : Bus) : b.toJson.Writable := by
  simp only [toJson, Json.writable_obj, List.forall_mem_append, List.forall_mem_cons]
  exact ⟨⟨Json.writable_str _, Json.writable_str _, Json.writable_str _, List.forall_mem_nil _⟩,
    Json.writable_member? (fun v _ => v.writable_toJson) _⟩

/-- Every end can be written. -/
theorem Endpoint.writable_toJson (e : Endpoint) : e.toJson.Writable := by
  cases e <;> simp [toJson, Json.writable_obj, Json.writable_str]

/-- Every step can be written. -/
theorem Step.writable_toJson (s : Step) : s.toJson.Writable := by
  simp only [toJson, Json.writable_obj, List.forall_mem_cons]
  exact ⟨Json.writable_str _, s.params.writable_member? _⟩

/-- Every edge can be written. -/
theorem Edge.writable_toJson (e : Edge) : e.toJson.Writable := by
  have hsteps : ∀ key (steps : List Step), ∀ m ∈ Json.members? key (steps.map Step.toJson), m.2.Writable := by
    intro key steps
    rcases Json.members?_eq key (steps.map Step.toJson) with h | ⟨h, -⟩
    · rw [h, List.forall_mem_singleton, Json.writable_arr, List.forall_mem_map]
      exact fun s _ => s.writable_toJson
    · rw [h]
      exact List.forall_mem_nil _
  simp only [toJson, Json.writable_obj, List.forall_mem_append, List.forall_mem_cons]
  exact ⟨⟨⟨⟨Json.writable_str _, e.source.writable_toJson, e.target.writable_toJson, Json.writable_bool _, List.forall_mem_nil _⟩,
    Json.writable_member? (fun k _ => Json.writable_int k) _⟩, hsteps _ _⟩, hsteps _ _⟩

/-- Every patch can be written. -/
theorem Patch.writable_toJson (p : Patch) : p.toJson.Writable := by
  have hsettings : p.settings.toJson.Writable := by
    simp only [Settings.toJson, Json.writable_obj, List.forall_mem_cons]
    exact ⟨Json.writable_nat _, Json.writable_float _, List.forall_mem_nil _⟩
  simp only [toJson, Json.writable_obj, List.forall_mem_cons, Json.writable_arr, List.forall_mem_map]
  exact ⟨fun b _ => b.writable_toJson, fun e _ => e.writable_toJson, fun b _ => b.writable_toJson, hsettings, List.forall_mem_nil _⟩

/-! ## One patch for each text -/

/-- Lists that are mapped alike are equal, if no two of their members are mapped alike. -/
theorem eq_of_map_eq {α β : Type} {f : α → β} {as bs : List α} (hinj : ∀ a ∈ as, ∀ b ∈ bs, f a = f b → a = b)
    (h : as.map f = bs.map f) : as = bs := by
  induction as generalizing bs with
  | nil => exact (List.map_eq_nil_iff.1 h.symm).symm
  | cons a as ih =>
    cases bs with
    | nil => cases h
    | cons b bs =>
      obtain ⟨hhead, htail⟩ := List.cons.inj h
      rw [hinj a List.mem_cons_self b List.mem_cons_self hhead,
        ih (fun c hc d hd => hinj c (List.mem_cons_of_mem _ hc) d (List.mem_cons_of_mem _ hd)) htail]

/-- Members under one key are told from the members under other keys. -/
theorem append_injective_of_key {key : String} {keys : List String} (hkey : key ∉ keys) {ms ms' ns ns' : List (String × Json)}
    (hms : (ms.map (·.1)).Sublist [key]) (hms' : (ms'.map (·.1)).Sublist [key]) (hns : (ns.map (·.1)).Sublist keys)
    (hns' : (ns'.map (·.1)).Sublist keys) (h : ms ++ ns = ms' ++ ns') : ms = ms' ∧ ns = ns' := by
  have hfilter : ∀ {ms ns : List (String × Json)}, (ms.map (·.1)).Sublist [key] → (ns.map (·.1)).Sublist keys →
      (ms ++ ns).filter (·.1 = key) = ms := by
    intro ms ns hms hns
    have hself : ms.filter (·.1 = key) = ms := List.filter_eq_self.2 fun m hm => by
      simpa using hms.subset (List.mem_map_of_mem hm)
    have hnil : ns.filter (·.1 = key) = [] := List.filter_eq_nil_iff.2 fun m hm heq =>
      hkey (hns.subset (List.mem_map.2 ⟨m, hm, by simpa using heq⟩))
    rw [List.filter_append, hself, hnil, List.append_nil]
  obtain rfl : ms = ms' := by rw [← hfilter hms hns, h, hfilter hms' hns']
  exact ⟨rfl, List.append_cancel_left h⟩

/-- Finite doubles with the same numeral are equal: the shortest decimal tells them apart. -/
theorem float_injective {x y : Binary64} (hx : x.isFinite = true) (hy : y.isFinite = true) (h : Json.float x = Json.float y) :
    x = y := by
  rw [Json.float, Json.float, if_pos hx, if_pos hy] at h
  exact Numeral.ofBinary64_injective hx hy (Json.num.inj h)

/-- An integer is never written as a double is, since doubles have a fraction or an exponent. -/
theorem int_ne_float {i : Int} (hi : Numeral.isWord i = true) (x : Binary64) : Json.int i ≠ Json.float x := by
  rw [Json.int, Json.float]
  split
  · intro h
    exact Numeral.read_ofBinary64_ne_int x i (Json.num.inj h ▸ Numeral.read_ofInt hi)
  · intro h
    cases h

/-- What is neither a number nor null is not written as a double is. -/
theorem float_ne {j : Json} (hj : (∀ n, j ≠ .num n) ∧ j ≠ .null) (x : Binary64) : j ≠ Json.float x := by
  rw [Json.float]
  split
  · exact hj.1 _
  · exact hj.2

/-- Values that can be stored are told by what they are written as. -/
theorem Value.toJson_injective {v w : Value} (hv : v.Storable) (hw : w.Storable) (h : v.toJson = w.toJson) : v = w := by
  cases v with
  | bool b =>
    cases w with
    | bool c => simpa [toJson] using h
    | float x => exact absurd h (float_ne (by simp [toJson]) x)
    | _ => cases h
  | int i =>
    cases w with
    | int j => exact congrArg int ((restored_int hv).injective (restored_int hw) h)
    | float x => exact absurd h (int_ne_float (IsInt64.isWord hv) x)
    | _ => cases h
  | float x =>
    cases w with
    | float y => exact congrArg float (float_injective (hv x List.mem_cons_self) (hw y List.mem_cons_self) h)
    | int i => exact absurd h.symm (int_ne_float (IsInt64.isWord hw) x)
    | _ => exact absurd h.symm (float_ne (by simp [toJson]) x)
  | vector xs =>
    cases w with
    | vector ys =>
      exact congrArg vector (eq_of_map_eq (fun x hx y hy => float_injective (hv x hx) (hw y hy)) (Json.arr.inj h))
    | float x => exact absurd h (float_ne (by simp [toJson]) x)
    | _ => cases h
  | text s =>
    cases w with
    | text t => simpa [toJson] using h
    | float x => exact absurd h (float_ne (by simp [toJson]) x)
    | _ => cases h

/-- Tables that are written alike are equal, if their values can be stored. -/
theorem Dict.toJson_injective {d e : Dict Value} (hd : ∀ v ∈ d.values, v.Storable) (he : ∀ v ∈ e.values, v.Storable)
    (h : d.toJson = e.toJson) : d = e := by
  refine Dict.ext (eq_of_map_eq (fun a ha b hb hab => ?_) (Json.obj.inj h))
  obtain ⟨hname, hvalue⟩ := Prod.mk.inj hab
  exact Prod.ext hname (Value.toJson_injective (hd _ (List.mem_map_of_mem ha)) (he _ (List.mem_map_of_mem hb)) hvalue)

/-- So are tables that are left out where they are empty. -/
theorem Dict.member?_injective {key : String} {d e : Dict Value} (hd : ∀ v ∈ d.values, v.Storable)
    (he : ∀ v ∈ e.values, v.Storable) (h : d.member? key = e.member? key) : d = e := by
  rcases d.member?_eq key with hdkey | ⟨hdkey, hdempty⟩ <;> rcases e.member?_eq key with hekey | ⟨hekey, heempty⟩ <;>
    rw [hdkey, hekey] at h
  · exact toJson_injective hd he (Prod.mk.inj (List.cons.inj h).1).2
  · cases h
  · cases h
  · rw [hdempty, heempty]

/-- Blocks that are written alike are equal, if their values can be stored. -/
theorem Block.toJson_injective {b c : Block} (hb : ∀ v ∈ b.values, v.Storable) (hc : ∀ v ∈ c.values, v.Storable)
    (h : b.toJson = c.toJson) : b = c := by
  rw [values, List.forall_mem_append] at hb hc
  simp only [toJson, Json.obj.injEq, List.cons_append, List.nil_append, List.cons.injEq, Prod.mk.injEq, Json.str.injEq,
    true_and] at h
  obtain ⟨hid, htype, h⟩ := h
  obtain ⟨hparams, hdefaults⟩ := append_injective_of_key (by simp) (b.params.keys_member? "params")
    (c.params.keys_member? "params") (b.defaults.keys_member? "defaults") (c.defaults.keys_member? "defaults") h
  have hparams := Dict.member?_injective hb.1 hc.1 hparams
  have hdefaults := Dict.member?_injective hb.2 hc.2 hdefaults
  cases b
  cases c
  simp_all

/-- Buses that are written alike are equal, if their defaults can be stored. -/
theorem Bus.toJson_injective {b c : Bus} (hb : ∀ v ∈ b.default, v.Storable) (hc : ∀ v ∈ c.default, v.Storable)
    (h : b.toJson = c.toJson) : b = c := by
  simp only [toJson, Json.obj.injEq, List.cons_append, List.nil_append, List.cons.injEq, Prod.mk.injEq, Json.str.injEq,
    true_and] at h
  obtain ⟨hid, htype, hcombine, hdefault⟩ := h
  have hcombine := b.combine.restored.injective c.combine.restored (congrArg Json.str hcombine)
  have hdefault := Json.member?_injective (fun v hv w hw => Value.toJson_injective (hb v hv) (hc w hw)) hdefault
  cases b
  cases c
  simp_all

/-- Steps that are written alike are equal, if their parameters can be stored. -/
theorem Step.toJson_injective {s t : Step} (hs : ∀ v ∈ s.params.values, v.Storable) (ht : ∀ v ∈ t.params.values, v.Storable)
    (h : s.toJson = t.toJson) : s = t := by
  simp only [toJson, Json.obj.injEq, List.cons.injEq, Prod.mk.injEq, Json.str.injEq, true_and] at h
  have hparams := Dict.member?_injective hs ht h.2
  cases s
  cases t
  simp_all

/-- Edges that are written alike are equal, if their values can be stored. -/
theorem Edge.toJson_injective {e f : Edge} (he : (∀ k ∈ e.sortKey, IsInt64 k) ∧ ∀ v ∈ e.values, v.Storable)
    (hf : (∀ k ∈ f.sortKey, IsInt64 k) ∧ ∀ v ∈ f.values, v.Storable) (h : e.toJson = f.toJson) : e = f := by
  simp only [values, List.flatMap_append, List.forall_mem_append, List.forall_mem_flatMap] at he hf
  simp only [toJson, Json.obj.injEq, List.cons_append, List.nil_append, List.append_assoc, List.cons.injEq, Prod.mk.injEq,
    Json.str.injEq, Json.bool.injEq, true_and] at h
  obtain ⟨hid, hsource, htarget, henabled, h⟩ := h
  have hkeys : ∀ e : Edge, ((Json.members? "adapters" (e.adapters.map Step.toJson)
      ++ Json.members? "lenses" (e.lenses.map Step.toJson)).map (·.1)).Sublist ["adapters", "lenses"] := by
    intro e
    rw [List.map_append]
    exact (Json.keys_members? "adapters" _).append (Json.keys_members? "lenses" _)
  obtain ⟨hsortKey, h⟩ := append_injective_of_key (by simp) (Json.keys_member? "sortKey" Json.int _)
    (Json.keys_member? "sortKey" Json.int _) (hkeys e) (hkeys f) h
  obtain ⟨hadapters, hlenses⟩ := append_injective_of_key (by simp) (Json.keys_members? "adapters" _)
    (Json.keys_members? "adapters" _) (Json.keys_members? "lenses" _) (Json.keys_members? "lenses" _) h
  have hsource := (e.source.restored 0).injective (f.source.restored 0) hsource
  have htarget := (e.target.restored 0).injective (f.target.restored 0) htarget
  have hsortKey := Json.member?_injective
    (fun k hk l hl => (restored_int (he.1 k hk)).injective (restored_int (hf.1 l hl))) hsortKey
  have hadapters := eq_of_map_eq (fun s hs t ht => Step.toJson_injective (he.2.1 s hs) (hf.2.1 t ht))
    (Json.members?_injective hadapters)
  have hlenses := eq_of_map_eq (fun s hs t ht => Step.toJson_injective (he.2.2 s hs) (hf.2.2 t ht))
    (Json.members?_injective hlenses)
  cases e
  cases f
  simp_all

/-- Patches that can be stored are told by what they are written as. -/
theorem Patch.toJson_injective {p q : Patch} (hp : p.Storable) (hq : q.Storable) (h : p.toJson = q.toJson) : p = q := by
  simp only [toJson, Settings.toJson, Json.obj.injEq, List.cons.injEq, Prod.mk.injEq, Json.arr.injEq, true_and, and_true] at h
  obtain ⟨hblocks, hedges, hbuses, hseed, hspeed⟩ := h
  have hblocks := eq_of_map_eq (fun b hb c hc => Block.toJson_injective (hp.blocks b hb) (hq.blocks c hc)) hblocks
  have hedges := eq_of_map_eq (fun e he f hf => Edge.toJson_injective (hp.edges e he) (hq.edges f hf)) hedges
  have hbuses := eq_of_map_eq (fun b hb c hc => Bus.toJson_injective (hp.buses b hb) (hq.buses c hc)) hbuses
  have hspeed := float_injective hp.settings.2 hq.settings.2 hspeed
  have hseed := (restored_nat hp.settings.1).injective (restored_nat hq.settings.1) hseed
  rcases p with ⟨_, _, _, _, _⟩
  rcases q with ⟨_, _, _, _, _⟩
  simp_all

/-! ## The canonical text -/

/-- A patch that was read can be stored. -/
theorem Patch.storable_of_ofText {text : String} {p : Patch} (h : ofText text = .ok p) : p.Storable := ensures_decode.of_document h

/-- The canonical text of a decoded patch is decoded to the patch if and only if the patch's doubles are read back, and two decoded
patches with one canonical text are equal. -/
theorem Patch.ofText_canonicalText_iff {text : String} {p : Patch} (h : ofText text = .ok p) :
    (ofText p.canonicalText = .ok p ↔ ∀ x ∈ p.doubles, x.ReadsBack)
      ∧ ∀ other q, ofText other = .ok q → p.canonicalText = q.canonicalText → p = q := by
  have hp := storable_of_ofText h
  constructor
  · rw [ofText, canonicalText, Json.decode_compact p.writable_toJson]
    exact restored_iff_readsBack hp
  · intro other q hother hsame
    exact toJson_injective hp (storable_of_ofText hother) (Json.compact_injective p.writable_toJson q.writable_toJson hsame)

namespace Patch.Stored

/-- A drawing of one block, in a text that writes its speed as an integer and its members in another order. -/
def drawing : Json :=
  .obj [("settings", .obj [("speed", .int 2), ("seed", .nat 7)]),
    ("blocks", .arr [.obj [("type", .str "Mix"), ("id", .str "m\"1"),
      ("params", .obj [("on", .bool true), ("at", .arr [.float ⟨0x3fb999999999999a⟩, .int (-3)]), ("count", .int (-4))])]])]

/-- What is drawn. -/
def patch : Patch where
  blocks := [{
    id := "m\"1"
    type := "Mix"
    params := .ofList [("on", .bool true), ("at", .vector [⟨0x3fb999999999999a⟩, .ofInt (-3)]), ("count", .int (-4))] }]
  settings := { seed := 7, speed := .ofInt 2 }

theorem writable_drawing : drawing.Writable := by
  simp [drawing, Json.writable_obj, Json.writable_arr, Json.writable_str, Json.writable_bool, Json.writable_int, Json.writable_nat,
    Json.writable_float]

end Patch.Stored

theorem Patch.ofText_canonicalText_iff_stored :
    ofText Stored.drawing.compact = .ok Stored.patch ∧ ofText Stored.patch.canonicalText = .ok Stored.patch := by
  have hdrawn : ofText Stored.drawing.compact = .ok Stored.patch := by
    rw [ofText, Json.decode_compact Stored.writable_drawing]
    rfl
  exact ⟨hdrawn, (ofText_canonicalText_iff hdrawn).1.2 (by decide +kernel)⟩

-- a double that its shortest decimal is not read as
example : ¬Binary64.ReadsBack ⟨0x3fffd1c67cc65277⟩ := by decide +kernel

end PatchGraph
