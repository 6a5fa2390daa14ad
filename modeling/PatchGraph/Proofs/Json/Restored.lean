import PatchGraph.Proofs.Json.Order

/-!
# Decoding what was written

A value is restored if decoding what it is written as gives it back (`Restored`). A record that is written with its fields in the order
of its table is decoded by storing them one after the other (`decodeRecord_ofJson`), so it is restored if and only if its parts are. A
field that is left out may as well be written, if storing it changes nothing.
-/

namespace PatchGraph.Json

variable {α β : Type}

/-- What a value is written as is decoded as the value. -/
def Restored (decode : Source → Decoded α) (toJson : α → Json) (a : α) : Prop := decode (.ofJson (toJson a)) = .ok a

/-- Restored values are told by what they are written as. -/
theorem Restored.injective {decode : Source → Decoded α} {toJson : α → Json} {a b : α} (ha : Restored decode toJson a)
    (hb : Restored decode toJson b) (h : toJson a = toJson b) : a = b := by
  rw [Restored, h] at ha
  exact Except.ok.inj (ha.symm.trans hb)

theorem ok_bind (a : α) (f : α → Decoded β) : (Except.ok a >>= f : Decoded β) = f a := rfl

theorem map_bind {γ : Type} (d : Decoded α) (f : α → β) (g : β → Decoded γ) : (d.map f >>= g) = d >>= fun a => g (f a) := by
  cases d <;> rfl

/-! ## Lists and options -/

/-- The items of a written list, one by one. -/
theorem ofItems_eq (items : List Json) : Source.ofItems items = items.map .ofJson := by
  induction items with
  | nil => rw [Source.ofItems, List.map_nil]
  | cons item rest ih => rw [Source.ofItems, ih, List.map_cons]

/-- The members of a written object, one by one. -/
theorem ofMembers_eq (members : List (String × Json)) :
    Source.ofMembers members = members.map fun m => (.text m.1, .ofJson m.2) := by
  induction members with
  | nil => rw [Source.ofMembers, List.map_nil]
  | cons m rest ih => rw [Source.ofMembers, ih, List.map_cons]

variable {decode : Source → Decoded α} {toJson : α → Json}

/-- A list is restored if and only if each of its items is. -/
theorem decodeItems_map_eq_ok {as : List α} :
    Source.decodeItems decode (as.map fun a => .ofJson (toJson a)) = .ok as ↔ ∀ a ∈ as, Restored decode toJson a := by
  induction as with
  | nil => exact ⟨fun _ => List.forall_mem_nil _, fun _ => rfl⟩
  | cons a as ih =>
    rw [List.map_cons, Source.decodeItems, List.forall_mem_cons, ← ih]
    simp only [bind_eq_ok, Except.ok.injEq, List.cons.injEq]
    constructor
    · rintro ⟨b, hb, bs, hbs, rfl, rfl⟩
      exact ⟨hb, hbs⟩
    · rintro ⟨ha, has⟩
      exact ⟨a, ha, as, has, rfl, rfl⟩

/-- A list is restored if its items are. -/
theorem restored_list {as : List α} :
    Restored (Source.decodeList decode) (fun as => .arr (as.map toJson)) as ↔ ∀ a ∈ as, Restored decode toJson a := by
  rw [Restored, Source.ofJson, ofItems_eq, List.map_map, Source.decodeList, ← decodeItems_map_eq_ok]
  simp only [bind_eq_ok, check_eq_ok, Ending.readingFault, exists_const, true_and, Except.ok.injEq]
  constructor
  · rintro ⟨bs, hbs, rfl⟩
    exact hbs
  · intro has
    exact ⟨as, has, rfl⟩

/-- A value that may be absent is restored if the value is, when there is one; what is written for it must not be read as absent. -/
theorem restored_option {o : Option α} (h : ∀ a ∈ o, decode .null ≠ .ok a) :
    Restored (Source.decodeOption decode) (optional toJson) o ↔ ∀ a ∈ o, Restored decode toJson a := by
  cases o with
  | none => simp [Restored, optional, Source.ofJson, Source.decodeOption]
  | some a =>
    simp only [Option.mem_some_iff, forall_eq'] at h ⊢
    rw [Restored, optional, Restored]
    cases hjson : toJson a with
    | null => simpa [Source.ofJson, Source.decodeOption] using h
    | _ => simp [Source.ofJson, Source.decodeOption, map_eq_ok]

/-! ## Records -/

/-- Store the members that belong to fields, in order. -/
def storeAll (fields : List (RecordField α)) (depth : Nat) : α → List (String × Json) → Decoded α
  | a, [] => .ok a
  | a, (key, j) :: rest =>
    match fields.find? (·.name = key) with
    | none => storeAll fields depth a rest
    | some f => f.store depth (.ofJson j) a >>= fun b => storeAll fields depth b rest

variable {fields : List (RecordField α)} {depth : Nat}

/-- To store members one list after the other is to store them all. -/
theorem storeAll_append (a : α) (ms ns : List (String × Json)) :
    storeAll fields depth a (ms ++ ns) = storeAll fields depth a ms >>= fun b => storeAll fields depth b ns := by
  induction ms generalizing a with
  | nil => rfl
  | cons m ms ih =>
    rcases m with ⟨key, j⟩
    rw [List.cons_append, storeAll, storeAll]
    split
    · exact ih a
    · rename_i f _
      cases f.store depth (.ofJson j) a with
      | error p => rfl
      | ok b => exact ih b

/-- An optional member is written under its key, or it is absent and left out. -/
theorem member?_eq (key : String) (f : α → Json) (o : Option α) :
    member? key f o = [(key, optional f o)] ∨ member? key f o = [] ∧ o = none := by
  cases o with
  | none => exact .inr ⟨rfl, rfl⟩
  | some a => exact .inl rfl

/-- A list is written under its key, or it is empty and left out. -/
theorem members?_eq (key : String) (items : List Json) :
    members? key items = [(key, .arr items)] ∨ members? key items = [] ∧ items = [] := by
  cases items with
  | nil => exact .inr ⟨rfl, rfl⟩
  | cons item rest => exact .inl rfl

/-- A flag is written under its key, or it is not set and left out. -/
theorem flag?_eq (key : String) (b : Bool) : flag? key b = [(key, .bool b)] ∨ flag? key b = [] ∧ b = false := by
  cases b with
  | false => exact .inr ⟨rfl, rfl⟩
  | true => exact .inl rfl

/-- Optional members that are written alike are equal, if the values are. -/
theorem member?_injective {key : String} {f : α → Json} {o p : Option α} (hinj : ∀ a ∈ o, ∀ b ∈ p, f a = f b → a = b)
    (h : member? key f o = member? key f p) : o = p := by
  cases o with
  | none => cases p with
    | none => rfl
    | some b => cases h
  | some a => cases p with
    | none => cases h
    | some b => rw [hinj a rfl b rfl (Prod.mk.inj (List.cons.inj h).1).2]

/-- Lists that are written alike are equal. -/
theorem members?_injective {key : String} {items items' : List Json} (h : members? key items = members? key items') :
    items = items' := by
  cases items <;> cases items' <;> simp_all [members?]

/-- Flags that are written alike are equal. -/
theorem flag?_injective {key : String} {b c : Bool} (h : flag? key b = flag? key c) : b = c := by
  cases b <;> cases c <;> simp_all [flag?]

/-- A member that may be left out takes at most its own key. -/
theorem keys_of_left_out {p : Prop} {key : String} {j : Json} {members : List (String × Json)}
    (h : members = [(key, j)] ∨ members = [] ∧ p) : (members.map (·.1)).Sublist [key] := by
  rcases h with rfl | ⟨rfl, -⟩ <;> simp

/-- An optional member takes at most its own key. -/
theorem keys_member? (key : String) (f : α → Json) (o : Option α) : ((member? key f o).map (·.1)).Sublist [key] :=
  keys_of_left_out (member?_eq key f o)

/-- A list that may be left out takes at most its own key. -/
theorem keys_members? (key : String) (items : List Json) : ((members? key items).map (·.1)).Sublist [key] :=
  keys_of_left_out (members?_eq key items)

/-- A flag takes at most its own key. -/
theorem keys_flag? (key : String) (b : Bool) : ((flag? key b).map (·.1)).Sublist [key] := keys_of_left_out (flag?_eq key b)

/-- A part of a record is decoded from its member. -/
theorem storeAll_cons {a : α} {f : RecordField α} {key : String} {part : Source → Decoded β} {set : β → α}
    (hf : fields.find? (·.name = key) = some f) (hstore : ∀ s, f.store depth s a = (part s).map set) (j : Json)
    (rest : List (String × Json)) :
    storeAll fields depth a ((key, j) :: rest) = part (.ofJson j) >>= fun b => storeAll fields depth (set b) rest := by
  rw [storeAll, hf]
  simp only [hstore, map_bind]

/-- A member that may be left out is stored as if it were there, if storing it changes nothing. -/
theorem storeAll_part {p : Prop} {a : α} {f : RecordField α} {key : String} {part : Source → Decoded β} {set : β → α} {j : Json}
    {members : List (String × Json)} (hf : fields.find? (·.name = key) = some f)
    (hstore : ∀ s, f.store depth s a = (part s).map set) (hmembers : members = [(key, j)] ∨ members = [] ∧ p)
    (habsent : p → (part (.ofJson j)).map set = .ok a) : storeAll fields depth a members = (part (.ofJson j)).map set := by
  rcases hmembers with rfl | ⟨rfl, hp⟩
  · rw [storeAll_cons hf hstore]
    cases part (.ofJson j) <;> rfl
  · exact (habsent hp).symm

/-- A part that may be absent is stored, if it is restored when there is one. -/
theorem storeAll_member? (part : Source → Decoded β) (set : Option β → α) {f : RecordField α} {key : String} {toJson : β → Json}
    {o : Option β} (hf : fields.find? (·.name = key) = some f)
    (hstore : ∀ s, f.store depth s (set none) = (s.decodeOption part).map set) (hnull : ∀ b ∈ o, part .null ≠ .ok b)
    (hrestored : ∀ b ∈ o, Restored part toJson b) : storeAll fields depth (set none) (member? key toJson o) = .ok (set o) := by
  have hoption : Restored (Source.decodeOption part) (optional toJson) o := (restored_option hnull).2 hrestored
  rw [storeAll_part hf hstore (member?_eq key toJson o) fun h => by rw [h]; rfl, hoption]
  rfl

/-- A flag is stored. -/
theorem storeAll_flag? (set : Bool → α) {f : RecordField α} {key : String} (hf : fields.find? (·.name = key) = some f)
    (hstore : ∀ s, f.store depth s (set false) = s.decodeBool.map set) (b : Bool) :
    storeAll fields depth (set false) (flag? key b) = .ok (set b) := by
  rw [storeAll_part hf hstore (flag?_eq key b) fun h => by rw [h]; rfl]
  rfl

/-- Members with different keys are stored one after the other. -/
theorem putAll_ofMembers {members : List (String × Json)} (hknown : ∀ k ∈ members.map (·.1), ∃ f, fields.find? (·.name = k) = some f)
    (hnodup : (members.map (·.1)).Nodup) (d : Draft α) (hfresh : ∀ k ∈ members.map (·.1), k ∉ d.seen) :
    d.putAll fields depth (Source.ofMembers members)
      = (storeAll fields depth d.value members).map fun a => ⟨a, (members.map (·.1)).reverse ++ d.seen⟩ := by
  induction members generalizing d with
  | nil => rfl
  | cons m members ih =>
    rcases m with ⟨key, j⟩
    simp only [List.map_cons, List.forall_mem_cons, List.nodup_cons] at hknown hnodup hfresh
    obtain ⟨f, hf⟩ := hknown.1
    have hname : f.name = key := by simpa using List.find?_some hf
    have hstore : storeAll fields depth d.value ((key, j) :: members)
        = f.store depth (.ofJson j) d.value >>= fun b => storeAll fields depth b members := by rw [storeAll, hf]
    have hput : d.put fields depth key (.ofJson j)
        = (f.store depth (.ofJson j) d.value).map fun a => ⟨a, key :: d.seen⟩ := by
      simp only [Draft.put, hf, hname, List.contains_iff_mem, if_neg hfresh.1]
      cases f.store depth (.ofJson j) d.value <;> rfl
    rw [Source.ofMembers, hstore]
    show (d.put fields depth key (.ofJson j) >>= fun d => d.putAll fields depth (Source.ofMembers members)) = _
    rw [hput]
    cases f.store depth (.ofJson j) d.value with
    | error p => rfl
    | ok a =>
      show Draft.putAll fields depth ⟨a, key :: d.seen⟩ (Source.ofMembers members) = _
      rw [ih hknown.2 hnodup.2 ⟨a, key :: d.seen⟩ fun k hk => ?_]
      · simp only [List.map_cons, List.reverse_cons, List.append_assoc, List.singleton_append]
        rfl
      · rw [List.mem_cons]
        rintro (rfl | hseen)
        · exact hnodup.1 hk
        · exact hfresh.2 k hk hseen

/-- A record that is written with its fields in the order of its table, the required ones among them, is decoded field by field. -/
theorem decodeRecord_ofJson {name : String} {blank : α} {members : List (String × Json)} (hnames : (fields.map (·.name)).Nodup)
    (hkeys : (members.map (·.1)).Sublist (fields.map (·.name)))
    (hrequired : ∀ f ∈ fields, f.required = true → f.name ∈ members.map (·.1)) :
    decodeRecord name fields blank depth (.ofJson (.obj members)) = storeAll fields (depth + 1) blank members := by
  have hknown : ∀ k ∈ members.map (·.1), ∃ f, fields.find? (·.name = k) = some f := by
    intro k hk
    obtain ⟨f, hf, rfl⟩ := List.mem_map.1 (hkeys.subset hk)
    exact Option.isSome_iff_exists.1 (List.find?_isSome.2 ⟨f, hf, by simp⟩)
  rw [Source.ofJson, decodeRecord, putAll_ofMembers hknown (hnames.sublist hkeys) ⟨blank, []⟩ (fun _ _ => List.not_mem_nil)]
  cases storeAll fields (depth + 1) blank members with
  | error p => rfl
  | ok a =>
    have hfinish :
        fields.find? (fun f => f.required && !((members.map (·.1)).reverse ++ ([] : List String)).contains f.name) = none := by
      rw [List.find?_eq_none]
      intro f hf
      simpa using hrequired f hf
    show Draft.finish fields ⟨a, _⟩ = _
    rw [Draft.finish, hfinish]

/-! ## What decoders give -/

/-- Whatever is decoded has a property. -/
def Ensures (decode : Source → Decoded α) (P : α → Prop) : Prop := ∀ s a, decode s = .ok a → P a

namespace Ensures

variable {P : α → Prop} {Q : β → Prop}

/-- What a changed result is known for follows from what the result is known for. -/
theorem map (h : Ensures decode P) {f : α → β} (hf : ∀ a, P a → Q (f a)) : Ensures (fun s => (decode s).map f) Q := by
  intro s b hb
  obtain ⟨a, ha, rfl⟩ := map_eq_ok.1 hb
  exact hf a (h s a ha)

/-- A property that does not depend on what is decoded. -/
theorem of_map {f : α → β} (hf : ∀ a, Q (f a)) : Ensures (fun s => (decode s).map f) Q :=
  map (P := fun _ => True) (fun _ _ _ => trivial) fun a _ => hf a

/-- Each decoded item is what the decoder of items ensures. -/
theorem decodeItems (h : Ensures decode P) {items : List Source} {as : List α} (has : Source.decodeItems decode items = .ok as) :
    ∀ a ∈ as, P a := by
  induction items generalizing as with
  | nil =>
    obtain rfl := Except.ok.inj has
    exact List.forall_mem_nil _
  | cons item items ih =>
    obtain ⟨a, ha, has⟩ := bind_eq_ok.1 has
    obtain ⟨more, hmore, has⟩ := bind_eq_ok.1 has
    obtain rfl := Except.ok.inj has
    exact List.forall_mem_cons.2 ⟨h item a ha, ih hmore⟩

/-- So is each member of a decoded list. -/
theorem decodeList (h : Ensures decode P) : Ensures (Source.decodeList decode) fun as => ∀ a ∈ as, P a := by
  intro s as has
  cases s with
  | array items ending =>
    obtain ⟨bs, hbs, has⟩ := bind_eq_ok.1 has
    obtain ⟨u, -, has⟩ := bind_eq_ok.1 has
    obtain rfl := Except.ok.inj has
    exact h.decodeItems hbs
  | _ => cases has

/-- So is a decoded value that may be absent. -/
theorem decodeOption (h : Ensures decode P) : Ensures (Source.decodeOption decode) fun o => ∀ a ∈ o, P a := by
  intro s o ho a ha
  obtain rfl := Option.mem_def.1 ha
  unfold Source.decodeOption at ho
  split at ho
  · cases ho
  · cases ho
  · obtain ⟨b, hb, hba⟩ := map_eq_ok.1 ho
    exact Option.some.inj hba ▸ h s b hb

/-- What is decoded from a whole text. -/
theorem of_document (h : Ensures decode P) {d : Document} {a : α} (hd : d.decode decode = .ok a) : P a := by
  obtain ⟨b, hb, hd⟩ := bind_eq_ok.1 hd
  split at hd
  · exact Except.ok.inj hd ▸ h _ _ hb
  · cases hd

variable (hfields : ∀ f ∈ fields, ∀ depth a, P a → Ensures (fun s => f.store depth s a) P)
include hfields

/-- What each field keeps is kept by all members that are put. -/
theorem putAll {d d' : Draft α} {members : List (Quoted × Source)} (hd : P d.value) (h : d.putAll fields depth members = .ok d') :
    P d'.value := by
  induction members generalizing d with
  | nil => exact Except.ok.inj h ▸ hd
  | cons m rest ih =>
    rcases m with ⟨key, s⟩
    obtain ⟨name, -, h⟩ := bind_eq_ok.1 h
    obtain ⟨e, hput, hrest⟩ := bind_eq_ok.1 h
    rcases Draft.put_eq_ok.1 hput with ⟨-, -, rfl⟩ | ⟨f, a, hfind, -, hstore, rfl⟩
    · exact ih hd hrest
    · exact ih (d := ⟨a, f.name :: d.seen⟩) (hfields f (List.mem_of_find?_eq_some hfind) depth _ hd s a hstore) hrest

/-- What each field keeps is kept when fields are given by their positions. -/
theorem decodePositions {short : Nat → Problem} {ending : Ending} {n : Nat} {items rest : List Source} {a b : α} (ha : P a)
    (h : Json.decodePositions depth short ending fields n items a = .ok (b, rest)) : P b := by
  induction fields generalizing n items a with
  | nil =>
    obtain ⟨rfl, -⟩ := Prod.mk.inj (Except.ok.inj h)
    exact ha
  | cons f fields ih =>
    have htail := fun g hg => hfields g (List.mem_cons_of_mem _ hg)
    cases items with
    | nil =>
      obtain ⟨u, -, h⟩ := bind_eq_ok.1 h
      split at h
      · cases h
      · exact ih htail ha h
    | cons item items =>
      obtain ⟨c, hc, h⟩ := bind_eq_ok.1 h
      exact ih htail (hfields f List.mem_cons_self depth a ha item c hc) h

/-- What holds of a record without any fields read, and is kept by every field, holds of every decoded record. -/
theorem decodeRecord (name : String) {blank : α} (hblank : P blank) (depth : Nat) :
    Ensures (Json.decodeRecord name fields blank depth) P := by
  intro s a h
  cases s with
  | object members ending =>
    obtain ⟨d, hd, h⟩ := bind_eq_ok.1 h
    obtain ⟨u, -, h⟩ := bind_eq_ok.1 h
    have hvalue := putAll hfields (d := ⟨blank, []⟩) hblank hd
    unfold Draft.finish at h
    split at h
    · cases h
    · exact Except.ok.inj h ▸ hvalue
  | array items ending =>
    obtain ⟨⟨b, rest⟩, hb, h⟩ := bind_eq_ok.1 h
    obtain ⟨u, -, h⟩ := bind_eq_ok.1 h
    exact Except.ok.inj h ▸ decodePositions hfields hblank hb
  | _ => cases h

end Ensures

end PatchGraph.Json
