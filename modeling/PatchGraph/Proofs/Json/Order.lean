import Mathlib.Data.List.Pairwise
import PatchGraph.Proofs.Json.Reading

/-!
# The order of members does not matter

A decoder does not depend on the order of members if it gives the same result after two members with different keys have changed
places, at any depth (`Respects`). A record does not, because each of its fields is put into a place of its own: the fields are read in
another order, but the record is the same. Values that are passed over or held as a whole are only looked at for faults.
-/

namespace PatchGraph.Json

namespace Source

/-- Two members with different keys, which are neighbours in one object at any depth, have changed places. -/
inductive Swapped : Source → Source → Prop where
  | swap {before after : List (Quoted × Source)} {a b : Quoted × Source} (hkeys : ∀ s, a.1 = .text s → b.1 ≠ .text s) :
    Swapped (.object (before ++ a :: b :: after) .closed) (.object (before ++ b :: a :: after) .closed)
  | item {before after : List Source} {s t : Source} (h : Swapped s t) :
    Swapped (.array (before ++ s :: after) .closed) (.array (before ++ t :: after) .closed)
  | member {before after : List (Quoted × Source)} {key : Quoted} {s t : Source} (h : Swapped s t) :
    Swapped (.object (before ++ (key, s) :: after) .closed) (.object (before ++ (key, t) :: after) .closed)

/-- Members that have changed places behind another one. -/
theorem Swapped.cons_member {ms ns : List (Quoted × Source)} (m : Quoted × Source)
    (h : Swapped (.object ms .closed) (.object ns .closed)) : Swapped (.object (m :: ms) .closed) (.object (m :: ns) .closed) := by
  cases h with
  | @swap before after a b hkeys =>
    rw [← List.cons_append, ← List.cons_append]
    exact .swap hkeys
  | @member before after key s t hvalue =>
    rw [← List.cons_append, ← List.cons_append]
    exact .member hvalue

/-! ## Faults -/

/-- Items are passed over without a fault if each of them is. -/
theorem passingItems_eq_none {items : List Source} : passingItems items = none ↔ ∀ s ∈ items, s.passingFault = none := by
  induction items with
  | nil => simp [passingItems]
  | cons s rest ih => simp [passingItems, ih]

/-- Members are passed over without a fault if each key and each value is. -/
theorem passingMembers_eq_none {members : List (Quoted × Source)} :
    passingMembers members = none ↔ ∀ m ∈ members, m.1.passingFault = none ∧ m.2.passingFault = none := by
  induction members with
  | nil => simp [passingMembers]
  | cons m rest ih => simp [passingMembers, ih]

/-- Items are held without a fault if each of them is. -/
theorem holdingItems_eq_none {depth : Nat} {items : List Source} :
    holdingItems depth items = none ↔ ∀ s ∈ items, s.holdingFault depth = none := by
  induction items with
  | nil => simp [holdingItems]
  | cons s rest ih => simp [holdingItems, ih]

/-- Members are held without a fault if each key is a text and each value is held. -/
theorem holdingMembers_eq_none {depth : Nat} {members : List (Quoted × Source)} :
    holdingMembers depth members = none ↔ ∀ m ∈ members, (∃ s, m.1.get = .ok s) ∧ m.2.holdingFault depth = none := by
  induction members with
  | nil => simp [holdingMembers]
  | cons m rest ih =>
    rcases m with ⟨key, s⟩
    cases hkey : key.get <;> simp [holdingMembers, hkey, ih]

/-- A closed list is passed over without a fault if its items are. -/
theorem passingFault_array {items : List Source} :
    (Source.array items .closed).passingFault = none ↔ ∀ s ∈ items, s.passingFault = none := by
  simp [passingFault, passingItems_eq_none, Ending.passingFault]

/-- A closed object is passed over without a fault if its members are. -/
theorem passingFault_object {members : List (Quoted × Source)} :
    (Source.object members .closed).passingFault = none
      ↔ ∀ m ∈ members, m.1.passingFault = none ∧ m.2.passingFault = none := by
  simp [passingFault, passingMembers_eq_none, Ending.passingFault]

/-- A closed list is held without a fault if it is not too deep and its items are held. -/
theorem holdingFault_array {depth : Nat} {items : List Source} :
    (Source.array items .closed).holdingFault depth = none
      ↔ depth + 1 < depthLimit ∧ ∀ s ∈ items, s.holdingFault (depth + 1) = none := by
  by_cases hdepth : depthLimit ≤ depth + 1
  · simp [holdingFault, hdepth, Nat.not_lt.2 hdepth]
  · simp [holdingFault, hdepth, holdingItems_eq_none, Ending.readingFault, Nat.not_le.1 hdepth]

/-- A closed object is held without a fault if it is not too deep and its members are held. -/
theorem holdingFault_object {depth : Nat} {members : List (Quoted × Source)} :
    (Source.object members .closed).holdingFault depth = none
      ↔ depth + 1 < depthLimit ∧ ∀ m ∈ members, (∃ s, m.1.get = .ok s) ∧ m.2.holdingFault (depth + 1) = none := by
  by_cases hdepth : depthLimit ≤ depth + 1
  · simp [holdingFault, hdepth, Nat.not_lt.2 hdepth]
  · simp [holdingFault, hdepth, holdingMembers_eq_none, Ending.readingFault, Nat.not_le.1 hdepth]

/-- Values without a fault that stops passing over them stay without one. -/
theorem Swapped.passingFault_eq_none {s t : Source} (h : Swapped s t) (hs : s.passingFault = none) : t.passingFault = none := by
  induction h with
  | swap _ =>
    simp only [passingFault_object, List.forall_mem_append, List.forall_mem_cons] at hs ⊢
    obtain ⟨hbefore, ha, hb, hafter⟩ := hs
    exact ⟨hbefore, hb, ha, hafter⟩
  | item _ ih =>
    simp only [passingFault_array, List.forall_mem_append, List.forall_mem_cons] at hs ⊢
    obtain ⟨hbefore, hitem, hafter⟩ := hs
    exact ⟨hbefore, ih hitem, hafter⟩
  | member _ ih =>
    simp only [passingFault_object, List.forall_mem_append, List.forall_mem_cons] at hs ⊢
    obtain ⟨hbefore, ⟨hkey, hvalue⟩, hafter⟩ := hs
    exact ⟨hbefore, ⟨hkey, ih hvalue⟩, hafter⟩

/-- Values that can be held as a whole still can. -/
theorem Swapped.holdingFault_eq_none {s t : Source} (h : Swapped s t) {depth : Nat} (hs : s.holdingFault depth = none) :
    t.holdingFault depth = none := by
  induction h generalizing depth with
  | swap _ =>
    simp only [holdingFault_object, List.forall_mem_append, List.forall_mem_cons] at hs ⊢
    obtain ⟨hdepth, hbefore, ha, hb, hafter⟩ := hs
    exact ⟨hdepth, hbefore, hb, ha, hafter⟩
  | item _ ih =>
    simp only [holdingFault_array, List.forall_mem_append, List.forall_mem_cons] at hs ⊢
    obtain ⟨hdepth, hbefore, hitem, hafter⟩ := hs
    exact ⟨hdepth, hbefore, ih hitem, hafter⟩
  | member _ ih =>
    simp only [holdingFault_object, List.forall_mem_append, List.forall_mem_cons] at hs ⊢
    obtain ⟨hdepth, hbefore, ⟨hkey, hvalue⟩, hafter⟩ := hs
    exact ⟨hdepth, hbefore, ⟨hkey, ih hvalue⟩, hafter⟩

end Source

/-! ## Decoders -/

/-- A check passes if there is no fault. -/
theorem check_eq_ok {fault : Option Fault} {u : Unit} : check fault = .ok u ↔ fault = none := by
  cases fault with
  | none => exact ⟨fun _ => rfl, fun _ => rfl⟩
  | some f => exact ⟨nofun, nofun⟩

/-- What one step makes of a result succeeds only if the first part does. -/
theorem bind_eq_ok {α β : Type} {d : Decoded α} {f : α → Decoded β} {b : β} :
    (d >>= f) = .ok b ↔ ∃ a, d = .ok a ∧ f a = .ok b := by
  cases d with
  | error e => exact ⟨nofun, fun ⟨_, h, _⟩ => nomatch h⟩
  | ok a => exact ⟨fun h => ⟨a, rfl, h⟩, fun ⟨_, ha, h⟩ => Except.ok.inj ha ▸ h⟩

/-- A changed result comes from a result. -/
theorem map_eq_ok {α β : Type} {d : Decoded α} {f : α → β} {b : β} : d.map f = .ok b ↔ ∃ a, d = .ok a ∧ f a = b := by
  cases d with
  | error e => exact ⟨nofun, fun ⟨_, h, _⟩ => nomatch h⟩
  | ok a => exact ⟨fun h => ⟨a, rfl, Except.ok.inj h⟩, fun ⟨_, ha, h⟩ => Except.ok.inj ha ▸ h ▸ rfl⟩

/-- A string that is decoded was read without a fault. -/
theorem Quoted.eq_text_of_decode {q : Quoted} {s : String} (h : q.decode = .ok s) : q = .text s := by
  cases q with
  | text t => exact congrArg Quoted.text (Except.ok.inj h)
  | unpaired f => cases h
  | broken d => cases h

/-- A decoder that gives the same result when members have changed places. -/
def Respects {α : Type} (decode : Source → Decoded α) : Prop :=
  ∀ s t a, Source.Swapped s t → decode s = .ok a → decode t = .ok a

namespace Respects

variable {α β : Type} {decode : Source → Decoded α}

/-- To change the result of a decoder does not make it look at the order. -/
theorem map (h : Respects decode) (f : α → β) : Respects fun s => (decode s).map f := by
  intro s t b hswap hs
  obtain ⟨a, ha, rfl⟩ := map_eq_ok.1 hs
  exact map_eq_ok.2 ⟨a, h s t a hswap ha, rfl⟩

theorem decodeString : Respects Source.decodeString := by
  intro s t a hswap hs
  cases hswap <;> cases hs

theorem decodeBool : Respects Source.decodeBool := by
  intro s t a hswap hs
  cases hswap <;> cases hs

theorem decodeInt64 : Respects Source.decodeInt64 := by
  intro s t a hswap hs
  cases hswap <;> cases hs

theorem decodeNat64 : Respects Source.decodeNat64 := by
  intro s t a hswap hs
  cases hswap <;> cases hs

theorem decodeFloat : Respects Source.decodeFloat := by
  intro s t a hswap hs
  cases hswap <;> cases hs

theorem decodeTag (table : List (String × α)) : Respects (Source.decodeTag table) := by
  intro s t a hswap hs
  cases hswap <;> cases hs

/-- An optional value is decoded without regard to the order if the value is. -/
theorem decodeOption (h : Respects decode) : Respects (Source.decodeOption decode) := by
  intro s t a hswap hs
  have hsome := h.map some s t a hswap
  cases hswap <;> exact hsome hs

/-- Items are decoded without regard to the order of the members inside of one of them. -/
theorem decodeItems (h : Respects decode) {before after : List Source} {s t : Source} (hswap : Source.Swapped s t)
    {as : List α} (has : Source.decodeItems decode (before ++ s :: after) = .ok as) :
    Source.decodeItems decode (before ++ t :: after) = .ok as := by
  induction before generalizing as with
  | nil =>
    obtain ⟨a, ha, hrest⟩ := bind_eq_ok.1 has
    exact bind_eq_ok.2 ⟨a, h s t a hswap ha, hrest⟩
  | cons first before ih =>
    obtain ⟨a, ha, hrest⟩ := bind_eq_ok.1 has
    obtain ⟨more, hmore, hcons⟩ := bind_eq_ok.1 hrest
    exact bind_eq_ok.2 ⟨a, ha, bind_eq_ok.2 ⟨more, ih hmore, hcons⟩⟩

/-- A list is decoded without regard to the order if its items are. -/
theorem decodeList (h : Respects decode) : Respects (Source.decodeList decode) := by
  intro s t as hswap hs
  cases hswap with
  | swap _ => cases hs
  | member _ => cases hs
  | item hswap =>
    obtain ⟨bs, hbs, hrest⟩ := bind_eq_ok.1 hs
    exact bind_eq_ok.2 ⟨bs, h.decodeItems hswap hbs, hrest⟩

/-- A choice that is written as an object has one member, and its value is null. -/
theorem choice_of_object {table : List (String × α)} {m : Quoted × Source} {rest : List (Quoted × Source)} {a : α}
    (h : Source.decodeChoice table (.object (m :: rest) .closed) = .ok a) : m.2 = .null ∧ rest = [] := by
  rcases m with ⟨key, value⟩
  obtain ⟨name, -, h⟩ := bind_eq_ok.1 h
  obtain ⟨b, -, h⟩ := bind_eq_ok.1 h
  cases value with
  | null =>
    obtain ⟨u, hrest, -⟩ := bind_eq_ok.1 h
    cases rest with
    | nil => exact ⟨rfl, rfl⟩
    | cons m rest => cases hrest
  | _ => cases h

/-- A choice by name has no members to look at. -/
theorem decodeChoice (table : List (String × α)) : Respects (Source.decodeChoice table) := by
  intro s t a hswap hs
  cases hswap with
  | item _ => cases hs
  | @swap before after m n _ =>
    cases before with
    | nil => cases (choice_of_object hs).2
    | cons first before => cases List.append_eq_nil_iff.1 (choice_of_object hs).2 |>.2
  | @member before after key v w hvalue =>
    cases before with
    | nil =>
      obtain rfl : v = .null := (choice_of_object hs).1
      cases hvalue
    | cons first before => cases List.append_eq_nil_iff.1 (choice_of_object hs).2 |>.2

end Respects

/-! ## Records -/

namespace RecordField

variable {α β γ : Type}

/-- Two fields can be read in either order. -/
def Commute (f g : RecordField α) : Prop :=
  ∀ depth s t a b, (f.store depth s a >>= g.store depth t) = .ok b ↔ (g.store depth t a >>= f.store depth s) = .ok b

instance : Std.Symm (@Commute α) where
  symm _ _ h depth s t a b := (h depth t s a b).symm

/-- Two fields that are put into different places can be read in either order. -/
theorem Commute.of_map {m n : String} {q r : Bool} {decode : Nat → Source → Decoded β} {decode' : Nat → Source → Decoded γ}
    {set : β → α → α} {set' : γ → α → α} (h : ∀ x y a, set' y (set x a) = set x (set' y a)) :
    Commute ⟨m, q, fun depth s a => (decode depth s).map fun x => set x a⟩
      ⟨n, r, fun depth s a => (decode' depth s).map fun y => set' y a⟩ := by
  intro depth s t a b
  simp only [bind_eq_ok, map_eq_ok]
  constructor
  · rintro ⟨_, ⟨x, hx, rfl⟩, y, hy, rfl⟩
    exact ⟨_, ⟨y, hy, rfl⟩, x, hx, (h x y a).symm⟩
  · rintro ⟨_, ⟨y, hy, rfl⟩, x, hx, rfl⟩
    exact ⟨_, ⟨x, hx, rfl⟩, y, hy, h x y a⟩

end RecordField

/-- The fields of a record whose members may come in any order. -/
structure OrderFree {α : Type} (fields : List (RecordField α)) : Prop where
  respects : ∀ f ∈ fields, ∀ depth a, Respects fun s => f.store depth s a
  commute : fields.Pairwise RecordField.Commute

namespace Draft

variable {α : Type} {fields : List (RecordField α)} {depth : Nat} {d d' d'' e : Draft α}

/-- Two drafts of one record, of which the same fields were read. -/
structure Same (d e : Draft α) : Prop where
  value : d.value = e.value
  seen : ∀ name, name ∈ d.seen ↔ name ∈ e.seen

/-- What reading a member does, if it succeeds: a member of no field is passed over, one of a field that was not read is stored. -/
theorem put_eq_ok {name : String} {s : Source} :
    d.put fields depth name s = .ok d' ↔
      fields.find? (·.name = name) = none ∧ s.passingFault = none ∧ d = d'
      ∨ ∃ f a, fields.find? (·.name = name) = some f ∧ f.name ∉ d.seen ∧ f.store depth s d.value = .ok a
        ∧ ⟨a, f.name :: d.seen⟩ = d' := by
  unfold put
  cases hfind : fields.find? (·.name = name) with
  | none => simp [bind_eq_ok, check_eq_ok]
  | some f =>
    by_cases hseen : f.name ∈ d.seen
    · simp [hseen]
    · simp [hseen, bind_eq_ok]

/-- The same member is put into drafts that are the same. -/
theorem Same.put {name : String} {s : Source} (h : d.Same e) (hd : d.put fields depth name s = .ok d') :
    ∃ e', e.put fields depth name s = .ok e' ∧ d'.Same e' := by
  rcases put_eq_ok.1 hd with ⟨hfind, hpass, rfl⟩ | ⟨f, a, hfind, hseen, hstore, rfl⟩
  · exact ⟨e, put_eq_ok.2 (.inl ⟨hfind, hpass, rfl⟩), h⟩
  · rw [h.seen] at hseen
    rw [h.value] at hstore
    refine ⟨⟨a, f.name :: e.seen⟩, put_eq_ok.2 (.inr ⟨f, a, hfind, hseen, hstore, rfl⟩), rfl, fun name => ?_⟩
    simp only [List.mem_cons, h.seen]

/-- The same members are put into drafts that are the same. -/
theorem Same.putAll {members : List (Quoted × Source)} (h : d.Same e) (hd : d.putAll fields depth members = .ok d') :
    ∃ e', e.putAll fields depth members = .ok e' ∧ d'.Same e' := by
  induction members generalizing d e with
  | nil =>
    obtain rfl := Except.ok.inj hd
    exact ⟨e, rfl, h⟩
  | cons m rest ih =>
    rcases m with ⟨key, s⟩
    obtain ⟨name, hname, hd⟩ := bind_eq_ok.1 hd
    obtain ⟨d₁, hput, hrest⟩ := bind_eq_ok.1 hd
    obtain ⟨e₁, hput', hsame⟩ := h.put hput
    obtain ⟨e', hrest', hsame'⟩ := ih hsame hrest
    exact ⟨e', bind_eq_ok.2 ⟨name, hname, bind_eq_ok.2 ⟨e₁, hput', hrest'⟩⟩, hsame'⟩

/-- Drafts that are the same are finished to one record. -/
theorem Same.finish_eq (h : d.Same e) : d.finish fields = e.finish fields := by
  simp only [finish, List.contains_eq_mem, h.seen, h.value]

/-- To put members one list after the other is to put them all. -/
theorem putAll_append {members more : List (Quoted × Source)} :
    d.putAll fields depth (members ++ more) = .ok d''
      ↔ ∃ d', d.putAll fields depth members = .ok d' ∧ d'.putAll fields depth more = .ok d'' := by
  induction members generalizing d with
  | nil => exact ⟨fun h => ⟨d, rfl, h⟩, fun ⟨_, h, h'⟩ => Except.ok.inj h ▸ h'⟩
  | cons m rest ih =>
    rcases m with ⟨key, s⟩
    simp only [List.cons_append, putAll, bind_eq_ok, ih]
    constructor
    · rintro ⟨name, hname, d₁, hput, d', hrest, hmore⟩
      exact ⟨d', ⟨name, hname, d₁, hput, hrest⟩, hmore⟩
    · rintro ⟨d', ⟨name, hname, d₁, hput, hrest⟩, hmore⟩
      exact ⟨name, hname, d₁, hput, d', hrest, hmore⟩

/-- Two members of different names can be read in either order. -/
theorem put_comm (hfields : fields.Pairwise RecordField.Commute) {m n : String} (hne : m ≠ n) {s t : Source}
    (hm : d.put fields depth m s = .ok d') (hn : d'.put fields depth n t = .ok d'') :
    ∃ e e', d.put fields depth n t = .ok e ∧ e.put fields depth m s = .ok e' ∧ d''.Same e' := by
  rcases put_eq_ok.1 hm with ⟨hfind, hpass, rfl⟩ | ⟨f, a, hfind, hseen, hstore, rfl⟩
  · exact ⟨d'', d'', hn, put_eq_ok.2 (.inl ⟨hfind, hpass, rfl⟩), rfl, fun _ => .rfl⟩
  · rcases put_eq_ok.1 hn with ⟨hfind', hpass', rfl⟩ | ⟨g, b, hfind', hseen', hstore', rfl⟩
    · exact ⟨d, _, put_eq_ok.2 (.inl ⟨hfind', hpass', rfl⟩), hm, rfl, fun _ => .rfl⟩
    · have hf : f.name = m := by simpa using List.find?_some hfind
      have hg : g.name = n := by simpa using List.find?_some hfind'
      have hfg : f ≠ g := fun heq => hne (hf.symm.trans ((congrArg RecordField.name heq).trans hg))
      have hcommute := hfields.forall (List.mem_of_find?_eq_some hfind) (List.mem_of_find?_eq_some hfind') hfg
      obtain ⟨c, hc, hb⟩ := bind_eq_ok.1 ((hcommute depth s t d.value b).1 (bind_eq_ok.2 ⟨a, hstore, hstore'⟩))
      simp only [List.mem_cons, not_or] at hseen'
      refine ⟨⟨c, g.name :: d.seen⟩, ⟨b, f.name :: g.name :: d.seen⟩, put_eq_ok.2 (.inr ⟨g, c, hfind', hseen'.2, hc, rfl⟩),
        put_eq_ok.2 (.inr ⟨f, b, hfind, ?_, hb, rfl⟩), rfl, fun name => ?_⟩
      · simp only [List.mem_cons, not_or]
        exact ⟨fun heq => hseen'.1 heq.symm, hseen⟩
      · simp only [List.mem_cons]
        exact or_left_comm

/-- A member of another text is read the same way. -/
theorem put_swapped (hfields : OrderFree fields) {name : String} {s t : Source} (h : Source.Swapped s t)
    (hd : d.put fields depth name s = .ok d') : d.put fields depth name t = .ok d' := by
  rcases put_eq_ok.1 hd with ⟨hfind, hpass, rfl⟩ | ⟨f, a, hfind, hseen, hstore, rfl⟩
  · exact put_eq_ok.2 (.inl ⟨hfind, h.passingFault_eq_none hpass, rfl⟩)
  · have hstore' := hfields.respects f (List.mem_of_find?_eq_some hfind) depth d.value s t a h hstore
    exact put_eq_ok.2 (.inr ⟨f, a, hfind, hseen, hstore', rfl⟩)

/-- Members that have changed places give the same record. -/
theorem putAll_swapped (hfields : OrderFree fields) {ms ns : List (Quoted × Source)}
    (h : Source.Swapped (.object ms .closed) (.object ns .closed)) (hd : d.putAll fields depth ms = .ok d') :
    ∃ e, d.putAll fields depth ns = .ok e ∧ d'.Same e := by
  cases h with
  | @swap before after a b hkeys =>
    rcases a with ⟨key, s⟩
    rcases b with ⟨key', t⟩
    obtain ⟨d₀, hbefore, hd⟩ := putAll_append.1 hd
    obtain ⟨m, hm, hd⟩ := bind_eq_ok.1 hd
    obtain ⟨d₁, hs, hd⟩ := bind_eq_ok.1 hd
    obtain ⟨n, hn, hd⟩ := bind_eq_ok.1 hd
    obtain ⟨d₂, ht, hafter⟩ := bind_eq_ok.1 hd
    have hne : m ≠ n := by
      rintro rfl
      exact hkeys m (Quoted.eq_text_of_decode hm) (Quoted.eq_text_of_decode hn)
    obtain ⟨e₁, e₂, ht', hs', hsame⟩ := put_comm hfields.commute hne hs ht
    obtain ⟨e, hafter', hsame'⟩ := hsame.putAll hafter
    refine ⟨e, putAll_append.2 ⟨d₀, hbefore, ?_⟩, hsame'⟩
    exact bind_eq_ok.2 ⟨n, hn, bind_eq_ok.2 ⟨e₁, ht', bind_eq_ok.2 ⟨m, hm, bind_eq_ok.2 ⟨e₂, hs', hafter'⟩⟩⟩⟩
  | member hvalue =>
    obtain ⟨d₀, hbefore, hd⟩ := putAll_append.1 hd
    obtain ⟨name, hname, hd⟩ := bind_eq_ok.1 hd
    obtain ⟨d₁, hs, hafter⟩ := bind_eq_ok.1 hd
    refine ⟨d', putAll_append.2 ⟨d₀, hbefore, ?_⟩, rfl, fun _ => .rfl⟩
    exact bind_eq_ok.2 ⟨name, hname, bind_eq_ok.2 ⟨d₁, put_swapped hfields hvalue hs, hafter⟩⟩

end Draft

section Records

variable {α : Type} {fields : List (RecordField α)}

/-- Fields that are free of order stay so when one is left out. -/
theorem OrderFree.tail {f : RecordField α} (h : OrderFree (f :: fields)) : OrderFree fields where
  respects g hg := h.respects g (List.mem_cons_of_mem _ hg)
  commute := h.commute.tail

/-- The fields of a record that is written as a list are read from items of another order. -/
theorem decodePositions_swapped (hfields : OrderFree fields) {depth n : Nat} {short : Nat → Problem} {before after : List Source}
    {s t : Source} (h : Source.Swapped s t) {a b : α}
    (hs : decodePositions depth short .closed fields n (before ++ s :: after) a = .ok (b, [])) :
    decodePositions depth short .closed fields n (before ++ t :: after) a = .ok (b, []) := by
  induction fields generalizing before n a with
  | nil =>
    have hitems := congrArg Prod.snd (Except.ok.inj hs)
    cases List.append_eq_nil_iff.1 hitems |>.2
  | cons f fields ih =>
    cases before with
    | nil =>
      obtain ⟨c, hc, hrest⟩ := bind_eq_ok.1 hs
      exact bind_eq_ok.2 ⟨c, hfields.respects f List.mem_cons_self depth a s t c h hc, hrest⟩
    | cons first before =>
      obtain ⟨c, hc, hrest⟩ := bind_eq_ok.1 hs
      exact bind_eq_ok.2 ⟨c, hc, ih hfields.tail hrest⟩

/-- The members of a record may come in any order. -/
theorem Respects.decodeRecord (hfields : OrderFree fields) (name : String) (blank : α) (depth : Nat) :
    Respects (decodeRecord name fields blank depth) := by
  have hobject : ∀ ms ns a, Source.Swapped (.object ms .closed) (.object ns .closed) →
      Json.decodeRecord name fields blank depth (.object ms .closed) = .ok a →
      Json.decodeRecord name fields blank depth (.object ns .closed) = .ok a := by
    intro ms ns a hswap hs
    obtain ⟨d, hd, hs⟩ := bind_eq_ok.1 hs
    obtain ⟨e, he, hsame⟩ := Draft.putAll_swapped hfields hswap hd
    have hfinish : d.finish fields = .ok a := hs
    rw [hsame.finish_eq] at hfinish
    exact bind_eq_ok.2 ⟨e, he, hfinish⟩
  intro s t a hswap hs
  cases hswap with
  | swap hkeys => exact hobject _ _ a (.swap hkeys) hs
  | member hvalue => exact hobject _ _ a (.member hvalue) hs
  | item hitem =>
    obtain ⟨⟨b, rest⟩, hpositions, hs⟩ := bind_eq_ok.1 hs
    obtain ⟨u, hcheck, hb⟩ := bind_eq_ok.1 hs
    cases rest with
    | nil => exact bind_eq_ok.2 ⟨(b, []), decodePositions_swapped hfields hitem hpositions, hs⟩
    | cons first rest => cases hcheck

end Records

/-! ## Written values -/

namespace Written

variable {v w : Written}

/-- The items of a list are read one by one. -/
theorem itemsSource_eq (items : List Written) : itemsSource items = items.map source := by
  induction items with
  | nil => rw [itemsSource, List.map_nil]
  | cons item rest ih => rw [itemsSource, ih, List.map_cons]

/-- The members of an object are read one by one. -/
theorem membersSource_eq (members : List (Spelling × Written)) :
    membersSource members = members.map fun m => (m.1.quoted, m.2.source) := by
  induction members with
  | nil => rw [membersSource, List.map_nil]
  | cons m rest ih => rw [membersSource, ih, List.map_cons]

/-- Two keys with different units are not read as one text. -/
theorem quoted_ne_of_units {a b : Spelling} (h : a.units ≠ b.units) {text : String} (ha : a.quoted = .text text) :
    b.quoted ≠ .text text := by
  intro hb
  exact h ((a.string_inner.2.2 text ha).trans (b.string_inner.2.2 text hb).symm)

/-- Members that have changed places change back. -/
theorem Swapped.symm (h : v.Swapped w) : w.Swapped v := by
  induction h with
  | swap a b => exact .swap b a
  | item _ ih => exact .item ih
  | member _ ih => exact .member ih

/-- No key is repeated by a change of places. -/
theorem Swapped.distinctKeys (h : v.Swapped w) (hv : v.DistinctKeys) : w.DistinctKeys := by
  induction h with
  | @swap before after a b =>
    simp only [DistinctKeys, membersDistinct_iff, List.forall_mem_append, List.forall_mem_cons] at hv ⊢
    obtain ⟨hkeys, hbefore, ha, hb, hafter⟩ := hv
    have hperm : (before ++ a :: b :: after).Perm (before ++ b :: a :: after) := (List.Perm.swap b a after).append_left before
    exact ⟨(hperm.map _).nodup_iff.1 hkeys, hbefore, hb, ha, hafter⟩
  | item _ ih =>
    simp only [DistinctKeys, itemsDistinct_iff, List.forall_mem_append, List.forall_mem_cons] at hv ⊢
    obtain ⟨hbefore, hitem, hafter⟩ := hv
    exact ⟨hbefore, ih hitem, hafter⟩
  | member _ ih =>
    simp only [DistinctKeys, membersDistinct_iff, List.map_append, List.map_cons, List.forall_mem_append,
      List.forall_mem_cons] at hv ⊢
    obtain ⟨hkeys, hbefore, hvalue, hafter⟩ := hv
    exact ⟨hkeys, hbefore, ih hvalue, hafter⟩

/-- What is read has changed places, too. -/
theorem Swapped.source_swapped (h : v.Swapped w) (hv : v.DistinctKeys) : Source.Swapped v.source w.source := by
  induction h with
  | @swap before after a b =>
    have hkeys := hv.1
    simp only [List.map_append, List.map_cons] at hkeys
    have hne : a.1.units ≠ b.1.units := by
      intro heq
      have hnot := (List.nodup_cons.1 (List.nodup_append.1 hkeys).2.1).1
      exact hnot (heq ▸ List.mem_cons_self)
    simp only [source, membersSource_eq, List.map_append, List.map_cons]
    exact .swap fun text => quoted_ne_of_units hne
  | item _ ih =>
    simp only [DistinctKeys, itemsDistinct_iff, List.forall_mem_append, List.forall_mem_cons] at hv
    simp only [source, itemsSource_eq, List.map_append, List.map_cons]
    exact .item (ih hv.2.1)
  | member _ ih =>
    simp only [DistinctKeys, membersDistinct_iff, List.forall_mem_append, List.forall_mem_cons] at hv
    simp only [source, membersSource_eq, List.map_append, List.map_cons]
    exact .member (ih hv.2.2.1)

end Written

/-- Nor by any number of changes. -/
theorem Written.Rearranged.distinctKeys {v w : Written} (h : v.Rearranged w) (hv : v.DistinctKeys) : w.DistinctKeys := by
  induction h with
  | refl => exact hv
  | tail _ hswap ih => exact hswap.distinctKeys ih

/-- The result of a decoder that does not depend on the order of members is that of any rearrangement. -/
theorem Respects.rearranged {α : Type} {decode : Source → Decoded α} (h : Respects decode) {v w : Written} (hvw : v.Rearranged w)
    (hv : v.DistinctKeys) (a : α) : decode v.source = .ok a ↔ decode w.source = .ok a := by
  induction hvw with
  | refl => exact .rfl
  | @tail u w hvu hswap ih =>
    have hu := Written.Rearranged.distinctKeys hvu hv
    have hw := hswap.distinctKeys hu
    exact ih.trans ⟨h _ _ a (hswap.source_swapped hu), h _ _ a (hswap.symm.source_swapped hw)⟩

end PatchGraph.Json
