import PatchGraph.Proofs.Dict
import PatchGraph.Proofs.Json.Compact
import PatchGraph.Proofs.Json.Order
import PatchGraph.Provenance

/-!
# Patches do not depend on the order of members

Two texts that differ only in blanks and in the order of the members of objects hold the same patch, if no key occurs twice in an
object: each decoder of a part of a patch gives the same result when members have changed places. So they have the same canonical
text and the same digest (`ofText_of_rearranged`).
-/

namespace PatchGraph

open Json (Decoded Draft OrderFree Quoted RecordField Respects Source bind_eq_ok check_eq_ok map_eq_ok)

/-! ## Values and tables -/

/-- A list in which members have changed places is no list of numbers. -/
theorem Value.numbers?_of_swapped {s t : Source} (h : Source.Swapped s t) (before after : List Source) :
    numbers? (before ++ s :: after) = none := by
  induction before with
  | nil => cases h <;> rfl
  | cons first before ih =>
    cases first with
    | number n =>
      simp only [List.cons_append, numbers?, ih]
      cases n.read with
      | none => rfl
      | some r => cases r <;> rfl
    | _ => rfl

/-- A value is a scalar or a vector, so it has no members to change places. -/
theorem Value.respects_decode (depth : Nat) : Respects (decode depth) := by
  intro s t v hswap hs
  obtain ⟨u, hcheck, hv⟩ := bind_eq_ok.1 hs
  cases hswap with
  | swap _ => cases hv
  | member _ => cases hv
  | item hitem =>
    simp only [ofSource?, numbers?_of_swapped hitem] at hv
    cases hv

namespace Dict

variable {depth : Nat}

/-- To decode members one list after the other is to decode them all. -/
theorem decodeMembers_append {d d'' : Dict Value} {ms ns : List (Quoted × Source)} :
    decodeMembers depth d (ms ++ ns) = .ok d''
      ↔ ∃ d', decodeMembers depth d ms = .ok d' ∧ decodeMembers depth d' ns = .ok d'' := by
  induction ms generalizing d with
  | nil => exact ⟨fun h => ⟨d, rfl, h⟩, fun ⟨_, h, h'⟩ => Except.ok.inj h ▸ h'⟩
  | cons m rest ih =>
    rcases m with ⟨key, s⟩
    simp only [List.cons_append, decodeMembers, bind_eq_ok, ih]
    constructor
    · rintro ⟨name, hname, v, hv, d', hrest, hns⟩
      exact ⟨d', ⟨name, hname, v, hv, hrest⟩, hns⟩
    · rintro ⟨d', ⟨name, hname, v, hv, hrest⟩, hns⟩
      exact ⟨name, hname, v, hv, d', hrest, hns⟩

/-- Members with different keys get into a table in either order. -/
theorem respects_decode (depth : Nat) : Respects (decode depth) := by
  intro s t d hswap hs
  cases hswap with
  | item _ => cases hs
  | @swap before after a b hkeys =>
    rcases a with ⟨key, s⟩
    rcases b with ⟨key', t⟩
    obtain ⟨e, he, hs⟩ := bind_eq_ok.1 hs
    obtain ⟨d₀, hbefore, he⟩ := decodeMembers_append.1 he
    obtain ⟨m, hm, he⟩ := bind_eq_ok.1 he
    obtain ⟨v, hv, he⟩ := bind_eq_ok.1 he
    obtain ⟨n, hn, he⟩ := bind_eq_ok.1 he
    obtain ⟨w, hw, hafter⟩ := bind_eq_ok.1 he
    have hne : m ≠ n := by
      rintro rfl
      exact hkeys m (Quoted.eq_text_of_decode hm) (Quoted.eq_text_of_decode hn)
    rw [insert_comm d₀ hne] at hafter
    refine bind_eq_ok.2 ⟨e, decodeMembers_append.2 ⟨d₀, hbefore, ?_⟩, hs⟩
    exact bind_eq_ok.2 ⟨n, hn, bind_eq_ok.2 ⟨w, hw, bind_eq_ok.2 ⟨m, hm, bind_eq_ok.2 ⟨v, hv, hafter⟩⟩⟩⟩
  | member hvalue =>
    obtain ⟨e, he, hs⟩ := bind_eq_ok.1 hs
    obtain ⟨d₀, hbefore, he⟩ := decodeMembers_append.1 he
    obtain ⟨name, hname, he⟩ := bind_eq_ok.1 he
    obtain ⟨v, hv, hafter⟩ := bind_eq_ok.1 he
    refine bind_eq_ok.2 ⟨e, decodeMembers_append.2 ⟨d₀, hbefore, ?_⟩, hs⟩
    exact bind_eq_ok.2 ⟨name, hname, bind_eq_ok.2 ⟨v, Value.respects_decode depth.succ _ _ v hvalue hv, hafter⟩⟩

end Dict

/-! ## Ends of edges -/

namespace Endpoint

variable {depth : Nat}

/-- The fields of a port end are free of order. -/
theorem orderFree_portFields : OrderFree portFields := by
  refine ⟨?_, ?_⟩
  · simp only [portFields, List.mem_cons, List.not_mem_nil, or_false, forall_eq_or_imp, forall_eq]
    exact ⟨fun _ _ => Respects.decodeString.map _, fun _ _ => Respects.decodeString.map _⟩
  · simp only [portFields, List.pairwise_cons, List.mem_cons, List.not_mem_nil, or_false, forall_eq, false_imp_iff, implies_true,
      List.Pairwise.nil, and_true]
    exact .of_map fun _ _ _ => rfl

/-- The fields of a bus end are free of order. -/
theorem orderFree_busFields : OrderFree busFields := by
  refine ⟨?_, ?_⟩
  · simp only [busFields, List.mem_cons, List.not_mem_nil, or_false, forall_eq]
    exact fun _ _ => Respects.decodeString
  · exact List.pairwise_singleton _ _

/-- What holding members does, if it succeeds: the kind is read once, and every other member is held. -/
theorem holdMembers_cons {k k' : Option Kind} {key : Quoted} {s : Source} {rest held : List (Quoted × Source)} :
    holdMembers depth k ((key, s) :: rest) = .ok (k', held) ↔ ∃ name, key.decode = .ok name
      ∧ (name = "kind" ∧ k = none ∧ (∃ tag, s.decodeTag Kind.table = .ok tag ∧ holdMembers depth (some tag) rest = .ok (k', held))
        ∨ name ≠ "kind" ∧ s.holdingFault depth = none
          ∧ ∃ more, holdMembers depth k rest = .ok (k', more) ∧ (key, s) :: more = held) := by
  rw [holdMembers, bind_eq_ok]
  refine exists_congr fun name => and_congr_right fun _ => ?_
  by_cases hname : name = "kind"
  · cases k with
    | none => simp [hname, bind_eq_ok]
    | some k => simp [hname]
  · simp [hname, bind_eq_ok, check_eq_ok]

/-- Members that are held as the same members, or as members that have changed places. -/
def HeldAlike (depth : Nat) (ms ns : List (Quoted × Source)) : Prop :=
  ∀ k k' held, holdMembers depth k ms = .ok (k', held) → ∃ held', holdMembers depth k ns = .ok (k', held')
    ∧ (held = held' ∨ Source.Swapped (.object held .closed) (.object held' .closed))

/-- Two members that have changed places are held alike. -/
theorem heldAlike_swap {a b : Quoted × Source} (hkeys : ∀ s, a.1 = .text s → b.1 ≠ .text s) (after : List (Quoted × Source)) :
    HeldAlike depth (a :: b :: after) (b :: a :: after) := by
  intro k k' held hs
  rcases a with ⟨key, s⟩
  rcases b with ⟨key', t⟩
  obtain ⟨m, hm, ha⟩ := holdMembers_cons.1 hs
  rcases ha with ⟨rfl, rfl, tag, htag, hrest⟩ | ⟨hmkind, hfault, more, hrest, rfl⟩
  · obtain ⟨n, hn, hb⟩ := holdMembers_cons.1 hrest
    rcases hb with ⟨-, hnone, -⟩ | ⟨hnkind, hfault', more, hafter, rfl⟩
    · cases hnone
    · have ha := holdMembers_cons.2 ⟨_, hm, .inl ⟨rfl, rfl, tag, htag, hafter⟩⟩
      exact ⟨_, holdMembers_cons.2 ⟨n, hn, .inr ⟨hnkind, hfault', more, ha, rfl⟩⟩, .inl rfl⟩
  · obtain ⟨n, hn, hb⟩ := holdMembers_cons.1 hrest
    rcases hb with ⟨rfl, rfl, tag, htag, hafter⟩ | ⟨hnkind, hfault', more', hafter, rfl⟩
    · have ha := holdMembers_cons.2 ⟨m, hm, .inr ⟨hmkind, hfault, more, hafter, rfl⟩⟩
      exact ⟨_, holdMembers_cons.2 ⟨_, hn, .inl ⟨rfl, rfl, tag, htag, ha⟩⟩, .inl rfl⟩
    · have ha := holdMembers_cons.2 ⟨m, hm, .inr ⟨hmkind, hfault, more', hafter, rfl⟩⟩
      refine ⟨_, holdMembers_cons.2 ⟨n, hn, .inr ⟨hnkind, hfault', _, ha, rfl⟩⟩, .inr ?_⟩
      exact @Source.Swapped.swap [] _ _ _ hkeys

/-- A member is held alike when members inside of it have changed places. -/
theorem heldAlike_member {s t : Source} (h : Source.Swapped s t) (key : Quoted) (after : List (Quoted × Source)) :
    HeldAlike depth ((key, s) :: after) ((key, t) :: after) := by
  intro k k' held hs
  obtain ⟨name, hname, hs⟩ := holdMembers_cons.1 hs
  rcases hs with ⟨rfl, rfl, tag, htag, hrest⟩ | ⟨hkind, hfault, more, hrest, rfl⟩
  · have htag' := Respects.decodeTag Kind.table s t tag h htag
    exact ⟨held, holdMembers_cons.2 ⟨_, hname, .inl ⟨rfl, rfl, tag, htag', hrest⟩⟩, .inl rfl⟩
  · have hfault' := h.holdingFault_eq_none hfault
    refine ⟨_, holdMembers_cons.2 ⟨name, hname, .inr ⟨hkind, hfault', more, hrest, rfl⟩⟩, .inr ?_⟩
    exact @Source.Swapped.member [] _ _ _ _ h

/-- What is held alike is so after one more member. -/
theorem HeldAlike.cons {ms ns : List (Quoted × Source)} (h : HeldAlike depth ms ns) (m : Quoted × Source) :
    HeldAlike depth (m :: ms) (m :: ns) := by
  intro k k' held hs
  rcases m with ⟨key, s⟩
  obtain ⟨name, hname, hs⟩ := holdMembers_cons.1 hs
  rcases hs with ⟨rfl, rfl, tag, htag, hrest⟩ | ⟨hkind, hfault, more, hrest, rfl⟩
  · obtain ⟨held', hrest', hheld⟩ := h _ _ _ hrest
    exact ⟨held', holdMembers_cons.2 ⟨_, hname, .inl ⟨rfl, rfl, tag, htag, hrest'⟩⟩, hheld⟩
  · obtain ⟨more', hrest', hmore⟩ := h _ _ _ hrest
    refine ⟨_, holdMembers_cons.2 ⟨name, hname, .inr ⟨hkind, hfault, more', hrest', rfl⟩⟩, ?_⟩
    rcases hmore with rfl | hmore
    · exact .inl rfl
    · exact .inr (hmore.cons_member _)

/-- The members of an object are held alike after a change of places. -/
theorem heldAlike_of_swapped {ms ns : List (Quoted × Source)} (h : Source.Swapped (.object ms .closed) (.object ns .closed)) :
    HeldAlike depth ms ns := by
  have happend : ∀ (before : List (Quoted × Source)) {ms ns}, HeldAlike depth ms ns →
      HeldAlike depth (before ++ ms) (before ++ ns) := by
    intro before ms ns h
    induction before with
    | nil => exact h
    | cons m before ih => exact ih.cons m
  cases h with
  | swap hkeys => exact happend _ (heldAlike_swap hkeys _)
  | member hvalue => exact happend _ (heldAlike_member hvalue _ _)

/-- An end of a known kind is read from members in any order. -/
theorem ofMembers_swapped {ms ns : List (Quoted × Source)} (h : Source.Swapped (.object ms .closed) (.object ns .closed))
    {kind : Kind} {e : Endpoint} (hs : ofMembers depth ms kind = .ok e) : ofMembers depth ns kind = .ok e := by
  cases kind with
  | port =>
    obtain ⟨d, hd, hs⟩ := bind_eq_ok.1 hs
    obtain ⟨d', hd', hsame⟩ := Draft.putAll_swapped orderFree_portFields h hd
    rw [hsame.finish_eq] at hs
    exact bind_eq_ok.2 ⟨d', hd', hs⟩
  | bus =>
    obtain ⟨d, hd, hs⟩ := bind_eq_ok.1 hs
    obtain ⟨d', hd', hsame⟩ := Draft.putAll_swapped orderFree_busFields h hd
    rw [hsame.finish_eq] at hs
    exact bind_eq_ok.2 ⟨d', hd', hs⟩

/-- Items are held if each of them is without a fault. -/
theorem holdItems_eq_ok {items : List Source} {u : Unit} :
    holdItems depth items = .ok u ↔ ∀ s ∈ items, s.holdingFault depth = none := by
  induction items with
  | nil => simp [holdItems]
  | cons s rest ih => simp [holdItems, bind_eq_ok, check_eq_ok, ih]

/-- Items are held alike when members inside of one of them have changed places. -/
theorem holdItems_swapped {before after : List Source} {s t : Source} (h : Source.Swapped s t) {u : Unit}
    (hs : holdItems depth (before ++ s :: after) = .ok u) : holdItems depth (before ++ t :: after) = .ok u := by
  simp only [holdItems_eq_ok, List.forall_mem_append, List.forall_mem_cons] at hs ⊢
  exact ⟨hs.1, h.holdingFault_eq_none hs.2.1, hs.2.2⟩

/-- So are the fields that are given as items. -/
theorem exactly_swapped {α : Type} {fields : List (RecordField α)} (hfields : OrderFree fields) {name : String} {blank a : α}
    {before after : List Source} {s t : Source} (h : Source.Swapped s t)
    (hs : exactly depth name fields (before ++ s :: after) blank = .ok a) :
    exactly depth name fields (before ++ t :: after) blank = .ok a := by
  obtain ⟨⟨b, rest⟩, hpositions, hs⟩ := bind_eq_ok.1 hs
  cases rest with
  | nil => exact bind_eq_ok.2 ⟨(b, []), Json.decodePositions_swapped hfields h hpositions, hs⟩
  | cons first rest => cases hs

/-- An end that is given as items does not depend on the order inside of them. -/
theorem ofItems_swapped {before after : List Source} {s t : Source} (h : Source.Swapped s t) {kind : Kind} {e : Endpoint}
    (hs : ofItems depth (before ++ s :: after) kind = .ok e) : ofItems depth (before ++ t :: after) kind = .ok e := by
  cases kind with
  | port =>
    obtain ⟨p, hp, rfl⟩ := map_eq_ok.1 hs
    exact map_eq_ok.2 ⟨p, exactly_swapped orderFree_portFields h hp, rfl⟩
  | bus =>
    obtain ⟨id, hid, rfl⟩ := map_eq_ok.1 hs
    exact map_eq_ok.2 ⟨id, exactly_swapped orderFree_busFields h hid, rfl⟩

/-- The end of an edge does not depend on the order of its members, although its kind is looked for first. -/
theorem respects_decode (depth : Nat) : Respects (decode depth) := by
  have hobject : ∀ ms ns e, Source.Swapped (.object ms .closed) (.object ns .closed) →
      decode depth (.object ms .closed) = .ok e → decode depth (.object ns .closed) = .ok e := by
    intro ms ns e hswap hs
    obtain ⟨⟨kind, held⟩, hheld, hs⟩ := bind_eq_ok.1 hs
    obtain ⟨held', hheld', halike⟩ := heldAlike_of_swapped hswap _ _ _ hheld
    refine bind_eq_ok.2 ⟨(kind, held'), hheld', ?_⟩
    rcases halike with rfl | halike
    · exact hs
    · cases kind with
      | none => cases hs
      | some kind => exact ofMembers_swapped halike hs
  intro s t e hswap hs
  cases hswap with
  | swap hkeys => exact hobject _ _ e (.swap hkeys) hs
  | member hvalue => exact hobject _ _ e (.member hvalue) hs
  | @item before after s t hitem =>
    cases before with
    | nil =>
      obtain ⟨kind, hkind, -⟩ := bind_eq_ok.1 hs
      cases hitem <;> cases hkind
    | cons first before =>
      obtain ⟨kind, hkind, hs⟩ := bind_eq_ok.1 hs
      obtain ⟨u, hhold, hs⟩ := bind_eq_ok.1 hs
      exact bind_eq_ok.2 ⟨kind, hkind, bind_eq_ok.2 ⟨u, holdItems_swapped hitem hhold, ofItems_swapped hitem hs⟩⟩

end Endpoint

/-! ## Records -/

/-- The fields of a block are free of order: each is put into a place of its own. -/
theorem Block.orderFree_fields : OrderFree fields := by
  refine ⟨?_, ?_⟩
  · simp only [fields, List.mem_cons, List.not_mem_nil, or_false, forall_eq_or_imp, forall_eq]
    exact ⟨fun _ _ => Respects.decodeString.map _, fun _ _ => Respects.decodeString.map _,
      fun depth _ => (Dict.respects_decode depth).map _, fun depth _ => (Dict.respects_decode depth).map _⟩
  · simp only [fields, List.pairwise_cons, List.mem_cons, List.not_mem_nil, or_false, forall_eq_or_imp, forall_eq, false_imp_iff,
      implies_true, List.Pairwise.nil, and_true]
    and_intros <;> exact .of_map fun _ _ _ => rfl

/-- The fields of a bus are free of order. -/
theorem Bus.orderFree_fields : OrderFree fields := by
  refine ⟨?_, ?_⟩
  · simp only [fields, List.mem_cons, List.not_mem_nil, or_false, forall_eq_or_imp, forall_eq]
    exact ⟨fun _ _ => Respects.decodeString.map _, fun _ _ => Respects.decodeString.map _,
      fun _ _ => (Respects.decodeChoice _).map _, fun depth _ => (Value.respects_decode depth).decodeOption.map _⟩
  · simp only [fields, List.pairwise_cons, List.mem_cons, List.not_mem_nil, or_false, forall_eq_or_imp, forall_eq, false_imp_iff,
      implies_true, List.Pairwise.nil, and_true]
    and_intros <;> exact .of_map fun _ _ _ => rfl

/-- The fields of a step are free of order. -/
theorem Step.orderFree_fields : OrderFree fields := by
  refine ⟨?_, ?_⟩
  · simp only [fields, List.mem_cons, List.not_mem_nil, or_false, forall_eq_or_imp, forall_eq]
    exact ⟨fun _ _ => Respects.decodeString.map _, fun depth _ => (Dict.respects_decode depth).map _⟩
  · simp only [fields, List.pairwise_cons, List.mem_cons, List.not_mem_nil, or_false, forall_eq, false_imp_iff,
      implies_true, List.Pairwise.nil, and_true]
    exact .of_map fun _ _ _ => rfl

/-- The fields of an edge are free of order. -/
theorem Edge.orderFree_fields : OrderFree fields := by
  have hsteps : ∀ depth, Respects (Source.decodeList (Step.decode depth)) := fun depth =>
    (Respects.decodeRecord Step.orderFree_fields _ _ depth).decodeList
  refine ⟨?_, ?_⟩
  · simp only [fields, List.mem_cons, List.not_mem_nil, or_false, forall_eq_or_imp, forall_eq]
    exact ⟨fun _ _ => Respects.decodeString.map _, fun depth _ => (Endpoint.respects_decode depth).map _,
      fun depth _ => (Endpoint.respects_decode depth).map _, fun _ _ => Respects.decodeBool.map _,
      fun _ _ => Respects.decodeInt64.decodeOption.map _, fun depth _ => (hsteps _).map _, fun depth _ => (hsteps _).map _⟩
  · simp only [fields, List.pairwise_cons, List.mem_cons, List.not_mem_nil, or_false, forall_eq_or_imp, forall_eq, false_imp_iff,
      implies_true, List.Pairwise.nil, and_true]
    and_intros <;> exact .of_map fun _ _ _ => rfl

/-- The settings are free of order. -/
theorem Settings.orderFree_fields : OrderFree fields := by
  refine ⟨?_, ?_⟩
  · simp only [fields, List.mem_cons, List.not_mem_nil, or_false, forall_eq_or_imp, forall_eq]
    exact ⟨fun _ _ => Respects.decodeNat64.map _, fun _ _ => Respects.decodeFloat.map _⟩
  · simp only [fields, List.pairwise_cons, List.mem_cons, List.not_mem_nil, or_false, forall_eq, false_imp_iff,
      implies_true, List.Pairwise.nil, and_true]
    exact .of_map fun _ _ _ => rfl

/-- The parts of a patch are free of order. -/
theorem Patch.orderFree_fields : OrderFree fields := by
  have hblocks : ∀ depth, Respects (Block.decode depth) := Respects.decodeRecord Block.orderFree_fields _ _
  have hedges : ∀ depth, Respects (Edge.decode depth) := Respects.decodeRecord Edge.orderFree_fields _ _
  have hbuses : ∀ depth, Respects (Bus.decode depth) := Respects.decodeRecord Bus.orderFree_fields _ _
  have hsettings : ∀ depth, Respects (Settings.decode depth) := Respects.decodeRecord Settings.orderFree_fields _ _
  refine ⟨?_, ?_⟩
  · simp only [fields, List.mem_cons, List.not_mem_nil, or_false, forall_eq_or_imp, forall_eq]
    exact ⟨fun _ _ => (hblocks _).decodeList.map _, fun _ _ => (hedges _).decodeList.map _, fun _ _ => (hbuses _).decodeList.map _,
      fun _ _ => (hsettings _).map _⟩
  · simp only [fields, List.pairwise_cons, List.mem_cons, List.not_mem_nil, or_false, forall_eq_or_imp, forall_eq, false_imp_iff,
      implies_true, List.Pairwise.nil, and_true]
    and_intros <;> exact .of_map fun _ _ _ => rfl

/-! ## Texts -/

open Json (Written)

namespace Patch

/-- If no key occurs twice in an object, blanks and the order of members do not matter: one of two texts holds a patch if and only if
the other one holds it, and what they hold has one canonical text and one digest. -/
theorem ofText_of_rearranged {v w : Written} {t u : String} (ht : v.IsTextOf t) (hu : w.IsTextOf u) (hdistinct : v.DistinctKeys)
    (hvw : v.Rearranged w) :
    (∀ p, ofText t = .ok p ↔ ofText u = .ok p)
      ∧ ∀ p q r, ofText t = .ok p → ofText u = .ok q →
        p.canonicalText = q.canonicalText ∧ (Provenance.of p r).patchHash = (Provenance.of q r).patchHash := by
  have hsame : ∀ p, ofText t = .ok p ↔ ofText u = .ok p := by
    intro p
    rw [ofText, ofText, ht.decode_eq, hu.decode_eq]
    exact (Respects.decodeRecord Patch.orderFree_fields _ _ 0).rearranged hvw hdistinct p
  refine ⟨hsame, fun p q r hp hq => ?_⟩
  obtain rfl : p = q := Except.ok.inj (((hsame p).1 hp).symm.trans hq)
  exact ⟨rfl, rfl⟩

namespace Wired

/-- A string in its usual spelling. -/
def str (s : String) : Written := .string (.ofString s)

/-- A member under a key in its usual spelling. -/
def member (key : String) (w : Written) : Json.Spelling × Written := (.ofString key, w)

/-- A port that says its kind last. -/
def source : Written := .object [member "block" (str "a"), member "port" (str "out"), member "kind" (str "port")]

/-- A patch with one edge, from a port to a bus. Both ends say their kinds last. -/
def drawn : Written :=
  .object [member "edges" (.array [.object [member "id" (str "e"), member "from" source,
    member "to" (.object [member "bus" (str "b"), member "kind" (str "bus")])]])]

/-- The same patch with the kind of the bus first, and the bus in front of the port. -/
def redrawn : Written :=
  .object [member "edges" (.array [.object [member "id" (str "e"),
    member "to" (.object [member "kind" (str "bus"), member "bus" (str "b")]), member "from" source]])]

theorem rearranged : drawn.Rearranged redrawn :=
  .tail
    (.single (@Written.Swapped.member [] [] _ _ _ (@Written.Swapped.item [] [] _ _
      (@Written.Swapped.member [_, _] [] _ _ _ (@Written.Swapped.swap [] [] _ _)))))
    (@Written.Swapped.member [] [] _ _ _ (@Written.Swapped.item [] [] _ _ (@Written.Swapped.swap [_] [] _ _)))

theorem distinctKeys : drawn.DistinctKeys := by
  simp only [drawn, source, str, member, Written.DistinctKeys, Written.ItemsDistinct, Written.MembersDistinct]
  decide +kernel

/-- What is drawn. -/
def patch : Patch := { edges := [{ id := "e", source := .port "a" "out", target := .bus "b" }] }

end Wired

theorem ofText_of_rearranged_wired :
    ofText (Wired.drawn.text []) = .ok Wired.patch ∧ ofText (Wired.redrawn.text ['\n', ' ']) = .ok Wired.patch := by
  have hdrawn : Wired.drawn.IsTextOf (Wired.drawn.text []) := Written.isTextOf_text rfl _
  have hpatch : ofText (Wired.drawn.text []) = .ok Wired.patch := by
    rw [ofText, hdrawn.decode_eq]
    rfl
  have hredrawn : Wired.redrawn.IsTextOf (Wired.redrawn.text ['\n', ' ']) := Written.isTextOf_text rfl _
  have hsame := ofText_of_rearranged hdrawn hredrawn Wired.distinctKeys Wired.rearranged
  exact ⟨hpatch, (hsame.1 _).1 hpatch⟩

end Patch

end PatchGraph
