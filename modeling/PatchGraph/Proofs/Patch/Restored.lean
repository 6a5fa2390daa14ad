import PatchGraph.Patch.Json
import PatchGraph.Proofs.Dict
import PatchGraph.Proofs.Json.Restored
import PatchGraph.Proofs.Number.Numeral

/-!
# Decoding what a patch is written as

Each part of a patch is restored if its values are, and a value is restored if its doubles are read back from their numerals. Whatever
is decoded can be stored (`Storable`): its integers fit their words and its doubles are finite. So a decoded patch is restored if and
only if all its doubles are read back (`Patch.restored_iff_readsBack`).
-/

namespace PatchGraph

open Json (Decoded Ensures Quoted RecordField Restored Source bind_eq_ok check_eq_ok map_eq_ok)

/-- The text of a double is read as the double. -/
def Binary64.ReadsBack (x : Binary64) : Prop := (Numeral.ofBinary64 x).read = some (.float x)

instance (x : Binary64) : Decidable x.ReadsBack := inferInstanceAs (Decidable (_ = _))

/-! ## Numbers -/

/-- An integer that fits 64 bits with its sign. -/
def IsInt64 (i : Int) : Prop := -0x8000000000000000 ≤ i ∧ i < 0x8000000000000000

instance (i : Int) : Decidable (IsInt64 i) := inferInstanceAs (Decidable (_ ∧ _))

/-- What fits 64 bits with its sign is not too large for a numeral without a fraction. -/
theorem IsInt64.isWord {i : Int} (h : IsInt64 i) : Numeral.isWord i = true := by
  simp only [Numeral.isWord, Bool.and_eq_true, decide_eq_true_eq]
  exact ⟨h.1, Int.lt_trans h.2 (by decide)⟩

/-- A finite double is written as its numeral. -/
theorem ofJson_float {x : Binary64} (h : x.isFinite = true) : Source.ofJson (.float x) = .number (.ofBinary64 x) := by
  rw [Json.float, if_pos h, Source.ofJson]

/-- An integer within the bounds is read back. -/
theorem decodeInt_int {low high i : Int} (hword : Numeral.isWord i = true) (hlow : low ≤ i) (hhigh : i < high) (expected : String) :
    Source.decodeInt low high expected (.ofJson (.int i)) = .ok i := by
  simp [Json.int, Source.ofJson, Source.decodeInt, Numeral.read_ofInt hword, hlow, hhigh]

/-- Integers of 64 bits are read back from their numerals. -/
theorem restored_int {i : Int} (h : IsInt64 i) : Restored Source.decodeInt64 Json.int i := decodeInt_int h.isWord h.1 h.2 _

/-- Natural numbers of 64 bits are read back from their numerals. -/
theorem restored_nat {n : Nat} (h : n < 0x10000000000000000) : Restored Source.decodeNat64 Json.nat n := by
  have hword : Numeral.isWord n = true := by
    simp only [Numeral.isWord, Bool.and_eq_true, decide_eq_true_eq]
    omega
  have hint : Source.decodeInt 0 0x10000000000000000 "u64" (.ofJson (.nat n)) = .ok (n : Int) :=
    decodeInt_int hword (by omega) (by omega) _
  rw [Restored, Source.decodeNat64, hint]
  rfl

/-- A finite double is restored if it is read back from its numeral. -/
theorem restored_float_iff {x : Binary64} (h : x.isFinite = true) : Restored Source.decodeFloat Json.float x ↔ x.ReadsBack := by
  rw [Restored, ofJson_float h, Binary64.ReadsBack]
  cases hread : (Numeral.ofBinary64 x).read with
  | none => simp [Source.decodeFloat, hread]
  | some r =>
    cases r with
    | int i => exact absurd hread (Numeral.read_ofBinary64_ne_int x i)
    | float y => simp [Source.decodeFloat, hread]

/-- A decoded integer is within the bounds. -/
theorem bounds_of_decodeInt {low high i : Int} {expected : String} {s : Source} (h : Source.decodeInt low high expected s = .ok i) :
    low ≤ i ∧ i < high := by
  unfold Source.decodeInt at h
  grind

/-- Decoded integers fit 64 bits. -/
theorem ensures_decodeInt64 : Ensures Source.decodeInt64 IsInt64 := fun _ _ h => bounds_of_decodeInt h

/-- Decoded natural numbers fit 64 bits. -/
theorem ensures_decodeNat64 : Ensures Source.decodeNat64 fun n => n < 0x10000000000000000 := by
  intro s n h
  obtain ⟨i, hi, rfl⟩ := map_eq_ok.1 h
  have hbounds := bounds_of_decodeInt hi
  omega

/-- Decoded doubles are finite. -/
theorem ensures_decodeFloat : Ensures Source.decodeFloat fun x => x.isFinite = true := by
  intro s x h
  cases s with
  | number n =>
    cases hread : n.read with
    | none => simp [Source.decodeFloat, hread] at h
    | some r =>
      cases r with
      | int i =>
        simp only [Source.decodeFloat, hread, Except.ok.injEq] at h
        exact h ▸ Binary64.isFinite_ofInt (Numeral.isWord_of_read hread)
      | float y =>
        simp only [Source.decodeFloat, hread, Except.ok.injEq] at h
        exact h ▸ Numeral.isFinite_of_read hread
  | _ => cases h

/-! ## Values -/

namespace Value

/-- The doubles of a value. -/
def doubles : Value → List Binary64
  | .float x => [x]
  | .vector xs => xs
  | _ => []

/-- Values that data files can hold: integers of 64 bits and finite doubles. -/
def Storable : Value → Prop
  | .int i => IsInt64 i
  | v => ∀ x ∈ v.doubles, x.isFinite = true

instance Storable.decidable : (v : Value) → Decidable v.Storable
  | .int i => inferInstanceAs (Decidable (IsInt64 i))
  | .bool _ | .text _ => inferInstanceAs (Decidable (∀ x ∈ ([] : List Binary64), x.isFinite = true))
  | .float x => inferInstanceAs (Decidable (∀ y ∈ [x], y.isFinite = true))
  | .vector xs => inferInstanceAs (Decidable (∀ x ∈ xs, x.isFinite = true))

/-- The numbers of a decoded vector are finite. -/
theorem isFinite_of_numbers? {items : List Source} {xs : List Binary64} (h : numbers? items = some xs) :
    ∀ x ∈ xs, x.isFinite = true := by
  fun_induction numbers? items generalizing xs with
  | case1 =>
    obtain rfl := Option.some.inj h
    exact List.forall_mem_nil _
  | case2 n rest i hread ih =>
    obtain ⟨ys, hys, rfl⟩ := Option.map_eq_some_iff.1 h
    exact List.forall_mem_cons.2 ⟨Binary64.isFinite_ofInt (Numeral.isWord_of_read hread), ih hys⟩
  | case3 n rest x hread ih =>
    obtain ⟨ys, hys, rfl⟩ := Option.map_eq_some_iff.1 h
    exact List.forall_mem_cons.2 ⟨Numeral.isFinite_of_read hread, ih hys⟩
  | case4 => cases h
  | case5 => cases h

/-- Whatever is decoded as a value can be stored. -/
theorem storable_of_source {s : Source} {v : Value} : ofSource? s = some v → v.Storable := by
  fun_cases ofSource? s with
  | case1 b =>
    rintro ⟨⟩
    exact List.forall_mem_nil _
  | case2 n i hread =>
    have hword := Numeral.isWord_of_read hread
    rintro ⟨⟩
    split
    · rename_i hlt
      simp only [Numeral.isWord, Bool.and_eq_true, decide_eq_true_eq] at hword
      exact ⟨hword.1, hlt⟩
    · exact List.forall_mem_singleton.2 (Binary64.isFinite_ofInt hword)
  | case3 n x hread =>
    rintro ⟨⟩
    exact List.forall_mem_singleton.2 (Numeral.isFinite_of_read hread)
  | case4 => rintro ⟨⟩
  | case5 t =>
    rintro ⟨⟩
    exact List.forall_mem_nil _
  | case6 items =>
    intro h
    obtain ⟨xs, hxs, rfl⟩ := Option.map_eq_some_iff.1 h
    exact isFinite_of_numbers? hxs
  | case7 => rintro ⟨⟩

/-- A value is decoded if nothing it holds is at fault and it has a known form. -/
theorem decode_eq_ok {depth : Nat} {s : Source} {v : Value} :
    decode depth s = .ok v ↔ s.holdingFault depth = none ∧ ofSource? s = some v := by
  simp only [decode, bind_eq_ok, check_eq_ok, exists_const]
  cases ofSource? s <;> simp

/-- Decoded values can be stored. -/
theorem ensures_decode (depth : Nat) : Ensures (decode depth) Storable :=
  fun _ _ h => storable_of_source (decode_eq_ok.1 h).2

/-- A vector is restored if each of its numbers is read back. -/
theorem numbers?_map_eq_some {xs : List Binary64} :
    numbers? (xs.map fun x => .number (.ofBinary64 x)) = some xs ↔ ∀ x ∈ xs, x.ReadsBack := by
  induction xs with
  | nil => exact ⟨fun _ => List.forall_mem_nil _, fun _ => rfl⟩
  | cons x xs ih =>
    rw [List.forall_mem_cons, ← ih, Binary64.ReadsBack, List.map_cons]
    cases hread : (Numeral.ofBinary64 x).read with
    | none => simp [numbers?, hread]
    | some r =>
      cases r with
      | int i => exact absurd hread (Numeral.read_ofBinary64_ne_int x i)
      | float y => simp [numbers?, hread, and_comm]

/-- A value is restored if its doubles are read back. -/
theorem restored_iff {v : Value} (h : v.Storable) {depth : Nat} (hdepth : depth + 1 < Source.depthLimit) :
    Restored (decode depth) toJson v ↔ ∀ x ∈ v.doubles, x.ReadsBack := by
  cases v with
  | bool b => exact ⟨fun _ => List.forall_mem_nil _, fun _ => rfl⟩
  | text s => exact ⟨fun _ => List.forall_mem_nil _, fun _ => rfl⟩
  | int i =>
    have hword : Numeral.isWord i = true := IsInt64.isWord h
    refine ⟨fun _ => List.forall_mem_nil _, fun _ => decode_eq_ok.2 ?_⟩
    simp [toJson, Json.int, Source.ofJson, Source.holdingFault, ofSource?, Numeral.read_ofInt hword, h.2]
  | float x =>
    have hfinite : x.isFinite = true := h x List.mem_cons_self
    rw [Restored, decode_eq_ok, toJson, ofJson_float hfinite, doubles, List.forall_mem_singleton, Binary64.ReadsBack]
    cases hread : (Numeral.ofBinary64 x).read with
    | none => simp [ofSource?, hread]
    | some r =>
      cases r with
      | int i => exact absurd hread (Numeral.read_ofBinary64_ne_int x i)
      | float y => simp [Source.holdingFault, ofSource?, hread]
  | vector xs =>
    have hitems : Source.ofJson (toJson (.vector xs)) = .array (xs.map fun x => .number (.ofBinary64 x)) .closed := by
      rw [toJson, Source.ofJson, Json.ofItems_eq, List.map_map]
      exact congrArg (Source.array · .closed) (List.map_congr_left fun x hx => ofJson_float (h x hx))
    rw [Restored, decode_eq_ok, hitems, Source.holdingFault_array, doubles, ← numbers?_map_eq_some]
    constructor
    · rintro ⟨-, hxs⟩
      simpa [ofSource?] using hxs
    · intro hxs
      have hread := numbers?_map_eq_some.1 hxs
      refine ⟨⟨hdepth, fun s hs => ?_⟩, by simp [ofSource?, hxs]⟩
      obtain ⟨x, hx, rfl⟩ := List.mem_map.1 hs
      have hx := hread x hx
      rw [Binary64.ReadsBack] at hx
      simp [Source.holdingFault, hx]

end Value

/-! ## Tables -/

namespace Dict

variable {depth : Nat}

/-- To decode members leaves what stands under other names. -/
theorem get?_decodeMembers {d d' : Dict Value} {members : List (Quoted × Source)} (h : decodeMembers depth d members = .ok d')
    {name : String} (hname : ∀ m ∈ members, m.1 ≠ .text name) : d'.get? name = d.get? name := by
  induction members generalizing d with
  | nil => rw [Except.ok.inj h]
  | cons m rest ih =>
    rcases m with ⟨key, s⟩
    rw [List.forall_mem_cons] at hname
    obtain ⟨k, hk, h⟩ := bind_eq_ok.1 h
    obtain ⟨v, -, h⟩ := bind_eq_ok.1 h
    rw [ih h hname.2, get?_insert, if_neg]
    rintro rfl
    exact hname.1 (Json.Quoted.eq_text_of_decode hk)

/-- Members that are written for entries are decoded to them, if the values are restored. -/
theorem decodeMembers_entries {es : List (String × Value)} (hkeys : (es.map (·.1)).Nodup) {d d' : Dict Value}
    (h : decodeMembers depth d (Source.ofMembers (es.map fun e => (e.1, e.2.toJson))) = .ok d') :
    ∀ e ∈ es, ∃ v, Value.decode depth (.ofJson e.2.toJson) = .ok v ∧ d'.get? e.1 = some v := by
  induction es generalizing d with
  | nil => exact List.forall_mem_nil _
  | cons e es ih =>
    rw [List.map_cons, List.nodup_cons] at hkeys
    rw [List.map_cons, Source.ofMembers] at h
    obtain ⟨name, hname, h⟩ := bind_eq_ok.1 h
    obtain ⟨v, hv, h⟩ := bind_eq_ok.1 h
    obtain rfl : name = e.1 := (Except.ok.inj hname).symm
    refine List.forall_mem_cons.2 ⟨⟨v, hv, ?_⟩, ih hkeys.2 h⟩
    rw [get?_decodeMembers h, get?_insert, if_pos rfl]
    intro m hm heq
    rw [Json.ofMembers_eq, List.map_map] at hm
    obtain ⟨f, hf, rfl⟩ := List.mem_map.1 hm
    exact hkeys.1 (List.mem_map.2 ⟨f, hf, Quoted.text.inj heq⟩)

/-- Members that are restored are put into the table one after the other. -/
theorem decodeMembers_of_restored {es : List (String × Value)} (h : ∀ e ∈ es, Restored (Value.decode depth) Value.toJson e.2)
    (d : Dict Value) :
    decodeMembers depth d (Source.ofMembers (es.map fun e => (e.1, e.2.toJson))) = .ok (es.foldl (fun d e => d.insert e.1 e.2) d) := by
  induction es generalizing d with
  | nil => rfl
  | cons e es ih =>
    rw [List.forall_mem_cons] at h
    rw [List.map_cons, Source.ofMembers, List.foldl_cons, ← ih h.2]
    show (Value.decode depth (.ofJson e.2.toJson) >>= fun v => decodeMembers depth (d.insert e.1 v) _) = _
    rw [h.1]
    rfl

/-- A table is restored if its values are. -/
theorem restored_iff {d : Dict Value} :
    Restored (decode depth) toJson d ↔ ∀ v ∈ d.values, Restored (Value.decode (depth + 1)) Value.toJson v := by
  have hdecode : decode depth (.ofJson d.toJson)
      = decodeMembers (depth + 1) {} (Source.ofMembers (d.entries.map fun e => (e.1, e.2.toJson))) := by
    rw [toJson, Source.ofJson]
    cases h : decodeMembers (depth + 1) {} (Source.ofMembers (d.entries.map fun e => (e.1, e.2.toJson))) <;>
      exact congrArg (· >>= fun d => Json.check none >>= fun _ => Except.ok d) h
  rw [Restored, hdecode, values, List.forall_mem_map]
  constructor
  · intro h e he
    obtain ⟨v, hv, hget⟩ := decodeMembers_entries d.nodup_keys h e he
    rw [get?_eq_some_iff.2 he] at hget
    rw [Restored, hv, Option.some.inj hget]
  · intro h
    rw [decodeMembers_of_restored h, foldl_insert_entries]

/-- A table that is decoded member by member holds values that can be stored. -/
theorem storable_of_decodeMembers {d d' : Dict Value} {members : List (Quoted × Source)} (hd : ∀ v ∈ d.values, v.Storable)
    (h : decodeMembers depth d members = .ok d') : ∀ v ∈ d'.values, v.Storable := by
  induction members generalizing d with
  | nil => exact Except.ok.inj h ▸ hd
  | cons m rest ih =>
    rcases m with ⟨key, s⟩
    obtain ⟨name, -, h⟩ := bind_eq_ok.1 h
    obtain ⟨v, hv, h⟩ := bind_eq_ok.1 h
    refine ih (fun w hw => ?_) h
    rcases mem_values_insert hw with rfl | hw
    · exact Value.ensures_decode depth s w hv
    · exact hd w hw

/-- A decoded table holds values that can be stored. -/
theorem ensures_decode (depth : Nat) : Ensures (decode depth) fun d => ∀ v ∈ d.values, v.Storable := by
  intro s d h
  cases s with
  | object members ending =>
    obtain ⟨d', hd', h⟩ := bind_eq_ok.1 h
    obtain ⟨u, -, h⟩ := bind_eq_ok.1 h
    exact Except.ok.inj h ▸ storable_of_decodeMembers (fun _ hv => absurd hv List.not_mem_nil) hd'
  | _ => cases h

/-- A table is written under its key, or it is empty and left out. -/
theorem member?_eq (key : String) (d : Dict Value) : d.member? key = [(key, d.toJson)] ∨ d.member? key = [] ∧ d = {} := by
  rcases d with ⟨entries, ascending⟩
  cases entries with
  | nil => exact .inr ⟨rfl, rfl⟩
  | cons e es => exact .inl rfl

/-- A table takes at most its own key. -/
theorem keys_member? (key : String) (d : Dict Value) : ((d.member? key).map (·.1)).Sublist [key] :=
  Json.keys_of_left_out (d.member?_eq key)

end Dict

/-! ## Blocks and buses -/

/-- The values of a block. -/
def Block.values (b : Block) : List Value := b.params.values ++ b.defaults.values

/-- A block is restored if its values are. -/
theorem Block.restored_iff {b : Block} {depth : Nat} :
    Restored (decode depth) toJson b ↔ ∀ v ∈ b.values, Restored (Value.decode (depth + 2)) Value.toJson v := by
  have hfirst : Json.storeAll fields (depth + 1) ⟨"", "", {}, {}⟩ [("id", .str b.id), ("type", .str b.type)]
      = .ok ⟨b.id, b.type, {}, {}⟩ := rfl
  have hparams : Json.storeAll fields (depth + 1) ⟨b.id, b.type, {}, {}⟩ (b.params.member? "params")
      = (Dict.decode (depth + 1) (.ofJson b.params.toJson)).map fun params => ⟨b.id, b.type, params, {}⟩ :=
    Json.storeAll_part rfl (fun _ => rfl) (b.params.member?_eq "params") fun h => by rw [h]; rfl
  have hdefaults : ∀ params, Json.storeAll fields (depth + 1) ⟨b.id, b.type, params, {}⟩ (b.defaults.member? "defaults")
      = (Dict.decode (depth + 1) (.ofJson b.defaults.toJson)).map fun defaults => ⟨b.id, b.type, params, defaults⟩ := fun params =>
    Json.storeAll_part rfl (fun _ => rfl) (b.defaults.member?_eq "defaults") fun h => by rw [h]; rfl
  rw [values, List.forall_mem_append, ← Dict.restored_iff, ← Dict.restored_iff]
  rw [Restored, decode, toJson, Json.decodeRecord_ofJson]
  · simp only [Json.storeAll_append, hfirst, hparams, hdefaults, Json.ok_bind, Json.map_bind, bind_eq_ok, map_eq_ok]
    rcases b
    simp [Restored]
  · simp [fields]
  · simpa [fields] using (b.params.keys_member? "params").append (b.defaults.keys_member? "defaults")
  · simp [fields]

/-- Modes are read back from their names. -/
theorem CombineMode.restored (m : CombineMode) : Restored decode (fun m => .str m.name) m := by
  cases m <;> rfl

/-- A bus is restored if its default is. -/
theorem Bus.restored_iff {b : Bus} {depth : Nat} :
    Restored (decode depth) toJson b ↔ ∀ v ∈ b.default, Restored (Value.decode (depth + 1)) Value.toJson v := by
  have hfirst : Json.storeAll fields (depth + 1) ⟨"", "", .last, none⟩
      [("id", .str b.id), ("type", .str b.type), ("combine", .str b.combine.name)] = .ok ⟨b.id, b.type, b.combine, none⟩ := by
    rcases b with ⟨id, type, combine, default⟩
    cases combine <;> rfl
  have hdefault : Json.storeAll fields (depth + 1) ⟨b.id, b.type, b.combine, none⟩ (Json.member? "default" Value.toJson b.default)
      = (Source.decodeOption (Value.decode (depth + 1)) (.ofJson (Json.optional Value.toJson b.default))).map
        fun default => ⟨b.id, b.type, b.combine, default⟩ :=
    Json.storeAll_part rfl (fun _ => rfl) (Json.member?_eq "default" Value.toJson b.default) fun h => by rw [h]; rfl
  rw [← Json.restored_option fun v _ => by simp [Value.decode, Value.ofSource?, Source.holdingFault, bind_eq_ok]]
  rw [Restored, decode, toJson, Json.decodeRecord_ofJson]
  · simp only [Json.storeAll_append, hfirst, hdefault, Json.ok_bind, map_eq_ok]
    rcases b
    simp [Restored]
  · simp [fields]
  · simpa [fields] using Json.keys_member? "default" Value.toJson b.default
  · simp [fields]

/-! ## Edges -/

/-- Ends hold no values, so they are always restored. -/
theorem Endpoint.restored (e : Endpoint) (depth : Nat) : Restored (decode depth) toJson e := by
  cases e <;> rfl

/-- A step is restored if its parameters are. -/
theorem Step.restored_iff {s : Step} {depth : Nat} :
    Restored (decode depth) toJson s ↔ ∀ v ∈ s.params.values, Restored (Value.decode (depth + 2)) Value.toJson v := by
  have hid : Json.storeAll fields (depth + 1) ⟨"", {}⟩ [("id", .str s.id)] = .ok ⟨s.id, {}⟩ := rfl
  have hparams : Json.storeAll fields (depth + 1) ⟨s.id, {}⟩ (s.params.member? "params")
      = (Dict.decode (depth + 1) (.ofJson s.params.toJson)).map fun params => ⟨s.id, params⟩ :=
    Json.storeAll_part rfl (fun _ => rfl) (s.params.member?_eq "params") fun h => by rw [h]; rfl
  rw [← Dict.restored_iff, Restored, decode, toJson, Json.decodeRecord_ofJson]
  · rw [← List.singleton_append, Json.storeAll_append, hid, Json.ok_bind, hparams, map_eq_ok]
    rcases s
    simp [Restored]
  · simp [fields]
  · simpa [fields] using s.params.keys_member? "params"
  · simp [fields]

/-- The values of an edge. -/
def Edge.values (e : Edge) : List Value := (e.adapters ++ e.lenses).flatMap fun s => s.params.values

/-- An edge with a sort key of 64 bits is restored if its values are. -/
theorem Edge.restored_iff {e : Edge} (hkey : ∀ k ∈ e.sortKey, IsInt64 k) {depth : Nat} :
    Restored (decode depth) toJson e ↔ ∀ v ∈ e.values, Restored (Value.decode (depth + 4)) Value.toJson v := by
  have hfirst : Json.storeAll fields (depth + 1) ⟨"", default, default, true, none, [], []⟩
      [("id", .str e.id), ("from", e.source.toJson), ("to", e.target.toJson), ("enabled", .bool e.enabled)]
        = .ok ⟨e.id, e.source, e.target, e.enabled, none, [], []⟩ := by
    rcases e with ⟨id, source, target, enabled, sortKey, adapters, lenses⟩
    cases source <;> cases target <;> rfl
  have hsortKey : Json.storeAll fields (depth + 1) ⟨e.id, e.source, e.target, e.enabled, none, [], []⟩
      (Json.member? "sortKey" Json.int e.sortKey) = .ok ⟨e.id, e.source, e.target, e.enabled, e.sortKey, [], []⟩ :=
    Json.storeAll_member? Source.decodeInt64 (Edge.mk e.id e.source e.target e.enabled · [] []) rfl (fun _ => rfl)
      (fun _ _ => by simp [Source.decodeInt64, Source.decodeInt]) fun k hk => restored_int (hkey k hk)
  have hadapters : Json.storeAll fields (depth + 1) ⟨e.id, e.source, e.target, e.enabled, e.sortKey, [], []⟩
      (Json.members? "adapters" (e.adapters.map Step.toJson))
        = (Source.decodeList (Step.decode (depth + 2)) (.ofJson (.arr (e.adapters.map Step.toJson)))).map
          fun adapters => ⟨e.id, e.source, e.target, e.enabled, e.sortKey, adapters, []⟩ :=
    Json.storeAll_part rfl (fun _ => rfl) (Json.members?_eq "adapters" _) fun h => by rw [h]; rfl
  have hlenses : ∀ adapters, Json.storeAll fields (depth + 1) ⟨e.id, e.source, e.target, e.enabled, e.sortKey, adapters, []⟩
      (Json.members? "lenses" (e.lenses.map Step.toJson))
        = (Source.decodeList (Step.decode (depth + 2)) (.ofJson (.arr (e.lenses.map Step.toJson)))).map
          fun lenses => ⟨e.id, e.source, e.target, e.enabled, e.sortKey, adapters, lenses⟩ := fun adapters =>
    Json.storeAll_part rfl (fun _ => rfl) (Json.members?_eq "lenses" _) fun h => by rw [h]; rfl
  have hsteps : (∀ v ∈ e.values, Restored (Value.decode (depth + 4)) Value.toJson v)
      ↔ (∀ s ∈ e.adapters, Restored (Step.decode (depth + 2)) Step.toJson s)
        ∧ ∀ s ∈ e.lenses, Restored (Step.decode (depth + 2)) Step.toJson s := by
    simp only [values, List.flatMap_append, List.forall_mem_append, List.forall_mem_flatMap, Step.restored_iff]
  rw [hsteps, ← Json.restored_list, ← Json.restored_list, Restored, decode, toJson, Json.decodeRecord_ofJson]
  · simp only [Json.storeAll_append, hfirst, hsortKey, hadapters, hlenses, Json.ok_bind, Json.map_bind, bind_eq_ok, map_eq_ok]
    rcases e
    simp [Restored]
  · simp [fields]
  · simpa [fields] using ((Json.keys_member? "sortKey" Json.int e.sortKey).append
      (Json.keys_members? "adapters" (e.adapters.map Step.toJson))).append
      (Json.keys_members? "lenses" (e.lenses.map Step.toJson))
  · simp [fields]

/-! ## Patches -/

/-- Settings are restored if the speed is read back. -/
theorem Settings.restored_iff {s : Settings} (hseed : s.seed < 0x10000000000000000) (hspeed : s.speed.isFinite = true)
    {depth : Nat} : Restored (decode depth) toJson s ↔ s.speed.ReadsBack := by
  have hfirst : Json.storeAll fields (depth + 1) {} [("seed", .nat s.seed)] = .ok { seed := s.seed } := by
    rw [Json.storeAll_part rfl (fun _ => rfl) (.inl rfl) False.elim, restored_nat hseed]
    rfl
  have hsecond : Json.storeAll fields (depth + 1) { seed := s.seed } [("speed", .float s.speed)]
      = (Source.decodeFloat (.ofJson (.float s.speed))).map fun speed => { seed := s.seed, speed } :=
    Json.storeAll_part rfl (fun _ => rfl) (.inl rfl) False.elim
  rw [Restored, decode, toJson, Json.decodeRecord_ofJson, ← restored_float_iff hspeed]
  · rw [← List.singleton_append, Json.storeAll_append, hfirst, Json.ok_bind, hsecond, map_eq_ok]
    rcases s
    simp [Restored]
  · simp [fields]
  · simp [fields]
  · simp [fields]

/-- A patch is restored if its parts are. -/
theorem Patch.restored_iff {p : Patch} : Restored decode toJson p
    ↔ (∀ b ∈ p.blocks, Restored (Block.decode 2) Block.toJson b) ∧ (∀ e ∈ p.edges, Restored (Edge.decode 2) Edge.toJson e)
      ∧ (∀ b ∈ p.buses, Restored (Bus.decode 2) Bus.toJson b) ∧ Restored (Settings.decode 1) Settings.toJson p.settings := by
  rw [← Json.restored_list, ← Json.restored_list, ← Json.restored_list, Restored, decode, toJson, Json.decodeRecord_ofJson]
  · have hmembers : Json.storeAll fields 1 {} [("blocks", .arr (p.blocks.map Block.toJson)), ("edges", .arr (p.edges.map Edge.toJson)),
        ("buses", .arr (p.buses.map Bus.toJson)), ("settings", p.settings.toJson)]
          = Source.decodeList (Block.decode 2) (.ofJson (.arr (p.blocks.map Block.toJson))) >>= fun blocks =>
            Source.decodeList (Edge.decode 2) (.ofJson (.arr (p.edges.map Edge.toJson))) >>= fun edges =>
            Source.decodeList (Bus.decode 2) (.ofJson (.arr (p.buses.map Bus.toJson))) >>= fun buses =>
            (Settings.decode 1 (.ofJson p.settings.toJson)).map fun settings => ⟨blocks, edges, buses, settings⟩ :=
      (Json.storeAll_cons rfl (fun _ => rfl) _ _).trans <| bind_congr fun _ =>
        (Json.storeAll_cons rfl (fun _ => rfl) _ _).trans <| bind_congr fun _ =>
        (Json.storeAll_cons rfl (fun _ => rfl) _ _).trans <| bind_congr fun _ =>
        Json.storeAll_part rfl (fun _ => rfl) (.inl rfl) False.elim
    rw [hmembers]
    simp only [bind_eq_ok, map_eq_ok]
    rcases p
    simp [Restored]
  · simp [fields]
  · simp [fields]
  · simp [fields]

/-! ## Decoded patches -/

/-- The values of a patch. -/
def Patch.values (p : Patch) : List Value :=
  p.blocks.flatMap Block.values ++ p.edges.flatMap Edge.values ++ p.buses.flatMap fun b => b.default.toList

/-- The doubles of a patch. -/
def Patch.doubles (p : Patch) : List Binary64 := p.settings.speed :: p.values.flatMap Value.doubles

/-- Patches that data files can hold. -/
structure Patch.Storable (p : Patch) : Prop where
  blocks : ∀ b ∈ p.blocks, ∀ v ∈ b.values, v.Storable
  edges : ∀ e ∈ p.edges, (∀ k ∈ e.sortKey, IsInt64 k) ∧ ∀ v ∈ e.values, v.Storable
  buses : ∀ b ∈ p.buses, ∀ v ∈ b.default, v.Storable
  settings : p.settings.seed < 0x10000000000000000 ∧ p.settings.speed.isFinite = true

/-- A decoded block holds values that can be stored. -/
theorem Block.ensures_decode (depth : Nat) : Ensures (decode depth) fun b => ∀ v ∈ b.values, v.Storable := by
  refine Ensures.decodeRecord ?_ _ (fun _ hv => absurd hv List.not_mem_nil) depth
  simp only [fields, values, List.mem_cons, List.not_mem_nil, or_false, forall_eq_or_imp, forall_eq, List.forall_mem_append]
  exact ⟨fun _ _ h => .of_map fun _ => h, fun _ _ h => .of_map fun _ => h,
    fun depth _ h => (Dict.ensures_decode depth).map fun _ hparams => ⟨hparams, h.2⟩,
    fun depth _ h => (Dict.ensures_decode depth).map fun _ hdefaults => ⟨h.1, hdefaults⟩⟩

/-- A decoded bus has a default that can be stored. -/
theorem Bus.ensures_decode (depth : Nat) : Ensures (decode depth) fun b => ∀ v ∈ b.default, v.Storable := by
  refine Ensures.decodeRecord ?_ _ nofun depth
  simp only [fields, List.mem_cons, List.not_mem_nil, or_false, forall_eq_or_imp, forall_eq]
  exact ⟨fun _ _ h => .of_map fun _ => h, fun _ _ h => .of_map fun _ => h, fun _ _ h => .of_map fun _ => h,
    fun depth _ _ => (Value.ensures_decode depth).decodeOption.map fun _ hdefault => hdefault⟩

/-- A decoded step has parameters that can be stored. -/
theorem Step.ensures_decode (depth : Nat) : Ensures (decode depth) fun s => ∀ v ∈ s.params.values, v.Storable := by
  refine Ensures.decodeRecord ?_ _ (fun _ hv => absurd hv List.not_mem_nil) depth
  simp only [fields, List.mem_cons, List.not_mem_nil, or_false, forall_eq_or_imp, forall_eq]
  exact ⟨fun _ _ h => .of_map fun _ => h, fun depth _ _ => (Dict.ensures_decode depth).map fun _ hparams => hparams⟩

/-- A decoded edge has a sort key of 64 bits and values that can be stored. -/
theorem Edge.ensures_decode (depth : Nat) :
    Ensures (decode depth) fun e => (∀ k ∈ e.sortKey, IsInt64 k) ∧ ∀ v ∈ e.values, v.Storable := by
  refine Ensures.decodeRecord ?_ _ ⟨nofun, nofun⟩ depth
  simp only [fields, values, List.mem_cons, List.not_mem_nil, or_false, forall_eq_or_imp, forall_eq, List.flatMap_append,
    List.forall_mem_append, List.forall_mem_flatMap]
  exact ⟨fun _ _ h => .of_map fun _ => h, fun _ _ h => .of_map fun _ => h, fun _ _ h => .of_map fun _ => h,
    fun _ _ h => .of_map fun _ => h, fun _ _ h => ensures_decodeInt64.decodeOption.map fun _ hkey => ⟨hkey, h.2⟩,
    fun depth _ h => (Step.ensures_decode _).decodeList.map fun _ hadapters => ⟨h.1, hadapters, h.2.2⟩,
    fun depth _ h => (Step.ensures_decode _).decodeList.map fun _ hlenses => ⟨h.1, h.2.1, hlenses⟩⟩

/-- Decoded settings have a seed of 64 bits and a finite speed. -/
theorem Settings.ensures_decode (depth : Nat) :
    Ensures (decode depth) fun s => s.seed < 0x10000000000000000 ∧ s.speed.isFinite = true := by
  refine Ensures.decodeRecord ?_ _ (by decide) depth
  simp only [fields, List.mem_cons, List.not_mem_nil, or_false, forall_eq_or_imp, forall_eq]
  exact ⟨fun _ _ h => ensures_decodeNat64.map fun _ hseed => ⟨hseed, h.2⟩,
    fun _ _ h => ensures_decodeFloat.map fun _ hspeed => ⟨h.1, hspeed⟩⟩

/-- Every decoded patch can be stored. -/
theorem Patch.ensures_decode : Ensures decode Storable := by
  refine Ensures.decodeRecord ?_ _ ⟨nofun, nofun, nofun, by decide⟩ 0
  simp only [fields, List.mem_cons, List.not_mem_nil, or_false, forall_eq_or_imp, forall_eq]
  exact ⟨fun _ _ h => (Block.ensures_decode _).decodeList.map fun _ hblocks => ⟨hblocks, h.edges, h.buses, h.settings⟩,
    fun _ _ h => (Edge.ensures_decode _).decodeList.map fun _ hedges => ⟨h.blocks, hedges, h.buses, h.settings⟩,
    fun _ _ h => (Bus.ensures_decode _).decodeList.map fun _ hbuses => ⟨h.blocks, h.edges, hbuses, h.settings⟩,
    fun _ _ h => (Settings.ensures_decode _).map fun _ hsettings => ⟨h.blocks, h.edges, h.buses, hsettings⟩⟩

/-- A patch that can be stored is restored if and only if its doubles are read back. -/
theorem Patch.restored_iff_readsBack {p : Patch} (h : p.Storable) : Restored decode toJson p ↔ ∀ x ∈ p.doubles, x.ReadsBack := by
  have hvalues : ∀ (depth : Nat) {vs : List Value}, depth + 1 < Source.depthLimit → (∀ v ∈ vs, v.Storable) →
      ((∀ v ∈ vs, Restored (Value.decode depth) Value.toJson v) ↔ ∀ x ∈ vs.flatMap Value.doubles, x.ReadsBack) := by
    intro depth vs hdepth hvs
    rw [List.forall_mem_flatMap]
    exact forall₂_congr fun v hv => Value.restored_iff (hvs v hv) hdepth
  have hblocks : (∀ b ∈ p.blocks, Restored (Block.decode 2) Block.toJson b)
      ↔ ∀ x ∈ (p.blocks.flatMap Block.values).flatMap Value.doubles, x.ReadsBack := by
    rw [← hvalues 4 (by decide) (List.forall_mem_flatMap.2 h.blocks), List.forall_mem_flatMap]
    exact forall₂_congr fun b _ => Block.restored_iff
  have hedges : (∀ e ∈ p.edges, Restored (Edge.decode 2) Edge.toJson e)
      ↔ ∀ x ∈ (p.edges.flatMap Edge.values).flatMap Value.doubles, x.ReadsBack := by
    rw [← hvalues 6 (by decide) (List.forall_mem_flatMap.2 fun e he => (h.edges e he).2), List.forall_mem_flatMap]
    exact forall₂_congr fun e he => Edge.restored_iff (h.edges e he).1
  have hbuses : (∀ b ∈ p.buses, Restored (Bus.decode 2) Bus.toJson b)
      ↔ ∀ x ∈ (p.buses.flatMap fun b => b.default.toList).flatMap Value.doubles, x.ReadsBack := by
    have hstorable : ∀ b ∈ p.buses, ∀ v ∈ b.default.toList, v.Storable := fun b hb v hv => h.buses b hb v (Option.mem_toList.1 hv)
    rw [← hvalues 3 (by decide) (List.forall_mem_flatMap.2 hstorable), List.forall_mem_flatMap]
    exact forall₂_congr fun b _ => Bus.restored_iff.trans (by simp only [Option.mem_toList, Option.mem_def])
  rw [restored_iff, hblocks, hedges, hbuses, Settings.restored_iff h.settings.1 h.settings.2]
  simp only [doubles, values, List.forall_mem_cons, List.flatMap_append, List.forall_mem_append]
  constructor
  · rintro ⟨hb, he, hu, hs⟩
    exact ⟨hs, ⟨hb, he⟩, hu⟩
  · rintro ⟨hs, ⟨hb, he⟩, hu⟩
    exact ⟨hb, he, hu, hs⟩

end PatchGraph
