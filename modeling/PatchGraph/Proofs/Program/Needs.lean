import Mathlib.Logic.Relation
import PatchGraph.Proofs.Program.Growth
import PatchGraph.Proofs.Program.Views

/-!
# What expressions need

To evaluate an expression at a moment one needs the values of its operands at that moment, and the value of the slot's source if it reads
a slot. The tables alone do not say that this ends somewhere, since a slot is read before it gets its source. An expression is `Confined`
to some slots if neither it nor anything it is made of reads another one. What is made of such expressions is confined, too
(`Regime.draws`), and the evaluation of a confined expression ends if that of the sources of these slots does.
-/

namespace PatchGraph

/-- An expression of a program, of any kind. -/
inductive Expr where
  | signal (e : SignalId)
  | field (e : FieldId)
  | event (e : EventId)
  deriving DecidableEq

/-- The expression of a name. -/
def Name.expr? : Name → Option Expr
  | .signal e => some (.signal e)
  | .field e => some (.field e)
  | .event e => some (.event e)
  | .const _ | .slot _ | .state _ | .handle _ => none

/-- The expression that is the source of a slot. -/
def SlotSource.expr? : SlotSource → Option Expr
  | .unbound => none
  | .signal e => some (.signal e)
  | .field e => some (.field e)
  | .event e => some (.event e)

namespace Program

/-- The names in an expression, if it is there. -/
def names? (p : Program) : Expr → Option (List Name)
  | .signal e => (p.signals[e.index]?).map SignalExpr.names
  | .field e => (p.fields[e.index]?).map FieldExpr.names
  | .event e => (p.events[e.index]?).map EventExpr.names

/-- An expression needs another at the same moment: the other is an operand, or the source of the slot that is read. -/
inductive Needs (p : Program) (x y : Expr) : Prop where
  | operand {names : List Name} {n : Name} (hx : p.names? x = some names) (hn : n ∈ names) (hy : n.expr? = some y)
  | source {names : List Name} {s : SlotId} {slot : Slot} (hx : p.names? x = some names) (hs : .slot s ∈ names)
    (hslot : p.slot? s = some slot) (hy : slot.source.expr? = some y)

/-- An expression that is there and reads only some slots, and so does all that it is made of. -/
inductive Confined (p : Program) (slots : List SlotId) : Expr → Prop where
  | mk {x : Expr} {names : List Name} (hx : p.names? x = some names) (hslots : ∀ s, .slot s ∈ names → s ∈ slots)
    (hoperands : ∀ n ∈ names, ∀ y, n.expr? = some y → p.Confined slots y) : p.Confined slots x

variable {p q : Program} {slots : List SlotId}

/-- The expressions of a program stay as they are in another. -/
def Keeps (p q : Program) : Prop := ∀ x names, p.names? x = some names → q.names? x = some names

/-- What is confined to some slots is confined to more, also when the program grows. -/
theorem Confined.imp {slots' : List SlotId} {x : Expr} (h : p.Confined slots x) (hpq : p.Keeps q)
    (hslots : ∀ s ∈ slots, s ∈ slots') : q.Confined slots' x := by
  induction h with
  | mk hx hreads _ ih => exact .mk (hpq _ _ hx) (fun s hs => hslots s (hreads s hs)) ih

/-- The evaluation of a confined expression ends if that of the slots' sources does. -/
theorem Confined.acc {x : Expr} (h : p.Confined slots x)
    (hsource : ∀ s ∈ slots, ∀ slot, p.slot? s = some slot → ∀ y, slot.source.expr? = some y → Acc (fun y x => p.Needs x y) y) :
    Acc (fun y x => p.Needs x y) x := by
  induction h with
  | mk hx hreads _ ih =>
    refine Acc.intro _ fun y hy => ?_
    cases hy with
    | operand hx' hn hy =>
      obtain rfl := Option.some.inj (hx.symm.trans hx')
      exact ih _ hn y hy
    | source hx' hs hslot hy =>
      obtain rfl := Option.some.inj (hx.symm.trans hx')
      exact hsource _ (hreads _ hs) _ hslot y hy

end Program

/-! ## Names of expressions -/

/-- An expression that reads no slot names none. -/
theorem SignalExpr.slot_not_mem_names {e : SignalExpr} (h : e.slot? = none) (s : SlotId) : .slot s ∉ e.names := by
  cases e <;> simp_all [SignalExpr.names, SignalExpr.slot?]

/-- A field that reads no slot has none among its names. -/
theorem FieldExpr.slot_not_mem_names {e : FieldExpr} (h : e.slot? = none) (s : SlotId) : .slot s ∉ e.names := by
  cases e <;> simp_all [FieldExpr.names, FieldExpr.slot?]

/-- An event that reads no slot has none among its names. -/
theorem EventExpr.slot_not_mem_names {e : EventExpr} (h : e.slot? = none) (s : SlotId) : .slot s ∉ e.names := by
  cases e <;> simp_all [EventExpr.names, EventExpr.slot?]

/-- The source of a slot is one of the names in the value that it is bound to. -/
theorem ValueRef.mem_names_of_source {v : ValueRef} {source : SlotSource} {x : Expr} (hv : v.source? = some source)
    (hx : source.expr? = some x) : ∃ n ∈ v.names, n.expr? = some x := by
  cases v with
  | const | special => cases hv
  | signal | field | event =>
    obtain rfl := Option.some.inj hv
    exact ⟨_, List.mem_cons_self .., hx⟩

/-! ## The regime of slots that may be read -/

/-- Expressions and slots only were added. -/
structure Builder.Prefix (b b' : Builder) : Prop where
  signals : b.signals.toList <+: b'.signals.toList
  fields : b.fields.toList <+: b'.fields.toList
  events : b.events.toList <+: b'.events.toList
  slots : b.slots.toList <+: b'.slots.toList

namespace Builder.Prefix

theorem refl (b : Builder) : b.Prefix b := ⟨List.prefix_refl _, List.prefix_refl _, List.prefix_refl _, List.prefix_refl _⟩

theorem trans {b b' b'' : Builder} (h : b.Prefix b') (h' : b'.Prefix b'') : b.Prefix b'' :=
  ⟨h.signals.trans h'.signals, h.fields.trans h'.fields, h.events.trans h'.events, h.slots.trans h'.slots⟩

/-- What is finished later keeps the expressions of what is finished earlier. -/
theorem keeps {b b' : Builder} (h : b.Prefix b') : b.finish.Keeps b'.finish := by
  intro x names hx
  cases x with
  | signal e =>
    obtain ⟨found, hfound, rfl⟩ := Option.map_eq_some_iff.1 hx
    exact Option.map_eq_some_iff.2 ⟨found, getElem?_of_prefix h.signals hfound, rfl⟩
  | field e =>
    obtain ⟨found, hfound, rfl⟩ := Option.map_eq_some_iff.1 hx
    exact Option.map_eq_some_iff.2 ⟨found, getElem?_of_prefix h.fields hfound, rfl⟩
  | event e =>
    obtain ⟨found, hfound, rfl⟩ := Option.map_eq_some_iff.1 hx
    exact Option.map_eq_some_iff.2 ⟨found, getElem?_of_prefix h.events hfound, rfl⟩

end Builder.Prefix

/-- All expressions are confined to some slots. -/
def Builder.Draws (b : Builder) (slots : List SlotId) : Prop :=
  ∀ x names, b.finish.names? x = some names → b.finish.Confined slots x

namespace Regime

/-- The regime of what is made while only some slots may be read, of all that ever may be. -/
def draws (all now : List SlotId) : Regime where
  Inv reserved b := (∀ s ∈ reserved, s ∈ now) ∧ b.Draws all
  Le := Builder.Prefix
  Usable b n := ∀ x, n.expr? = some x → b.finish.Confined now x
  Bound _ _ := True

section Draws

variable {all now : List SlotId} (hall : ∀ s ∈ now, s ∈ all) {rs : List SlotId} {b b' : Builder}

/-- A step that adds no expression keeps to the regime. -/
theorem builds_draws {α : Type} {m : Build α} {Q : α → Builder → Prop} (hb : (draws all now).Inv rs b) (hgrows : b.Prefix (m.run b).2)
    (hkeeps : (m.run b).2.finish.Keeps b.finish) (hq : Q (m.run b).1 (m.run b).2) : (draws all now).Builds rs m b Q :=
  ⟨⟨hb.1, fun x names hx => (hb.2 x names (hkeeps x names hx)).imp hgrows.keeps fun _ h => h⟩, hgrows, hq⟩

include hall

/-- A new expression that is confined to the slots that may be read. -/
theorem builds_draws_new {α : Type} {m : Build α} {Q : α → Builder → Prop} (x : Expr) (names : List Name)
    (hb : (draws all now).Inv rs b) (hgrows : b.Prefix (m.run b).2)
    (hnew : ∀ y ns, (m.run b).2.finish.names? y = some ns → b.finish.names? y = some ns ∨ y = x)
    (hx : (m.run b).2.finish.names? x = some names) (hslots : ∀ s, .slot s ∈ names → s ∈ now)
    (hnames : ∀ n ∈ names, (draws all now).Usable b n)
    (hq : (m.run b).2.finish.Confined now x → Q (m.run b).1 (m.run b).2) : (draws all now).Builds rs m b Q := by
  have hconfined : (m.run b).2.finish.Confined now x :=
    .mk hx hslots fun n hn y hy => (hnames n hn y hy).imp hgrows.keeps fun _ h => h
  refine ⟨⟨hb.1, fun y ns hy => ?_⟩, hgrows, hq hconfined⟩
  rcases hnew y ns hy with hold | rfl
  · exact (hb.2 y ns hold).imp hgrows.keeps fun _ h => h
  · exact hconfined.imp (fun _ _ h => h) hall

/-- A signal of confined expressions that reads slots it may read is confined. -/
theorem builds_pushSignal {e : SignalExpr} (hb : (draws all now).Inv rs b) (hslots : ∀ s, .slot s ∈ e.names → s ∈ now)
    (hnames : ∀ n ∈ e.names, (draws all now).Usable b n) :
    (draws all now).Builds rs (Build.signal e) b fun x b' => (draws all now).Usable b' (.signal x) := by
  refine builds_draws_new hall (.signal ⟨b.signals.size⟩) e.names hb
    { Builder.Prefix.refl b with signals := Build.prefix_push _ _ } (fun y ns hy => ?_) ?_ hslots hnames fun h x hx => ?_
  · cases y with
    | field | event => exact .inl hy
    | signal y =>
      obtain ⟨found, hfound, rfl⟩ := Option.map_eq_some_iff.1 hy
      rcases Build.getElem?_toList_push hfound with hold | ⟨hi, -⟩
      · exact .inl (Option.map_eq_some_iff.2 ⟨found, hold, rfl⟩)
      · exact .inr (congrArg (fun i => Expr.signal ⟨i⟩) hi)
  · show ((b.signals.push e).toList[b.signals.size]?).map SignalExpr.names = some e.names
    simp
  · obtain rfl := Option.some.inj hx
    exact h

/-- So is a field. -/
theorem builds_pushField {e : FieldExpr} (hb : (draws all now).Inv rs b) (hslots : ∀ s, .slot s ∈ e.names → s ∈ now)
    (hnames : ∀ n ∈ e.names, (draws all now).Usable b n) :
    (draws all now).Builds rs (Build.field e) b fun x b' => (draws all now).Usable b' (.field x) := by
  refine builds_draws_new hall (.field ⟨b.fields.size⟩) e.names hb
    { Builder.Prefix.refl b with fields := Build.prefix_push _ _ } (fun y ns hy => ?_) ?_ hslots hnames fun h x hx => ?_
  · cases y with
    | signal | event => exact .inl hy
    | field y =>
      obtain ⟨found, hfound, rfl⟩ := Option.map_eq_some_iff.1 hy
      rcases Build.getElem?_toList_push hfound with hold | ⟨hi, -⟩
      · exact .inl (Option.map_eq_some_iff.2 ⟨found, hold, rfl⟩)
      · exact .inr (congrArg (fun i => Expr.field ⟨i⟩) hi)
  · show ((b.fields.push e).toList[b.fields.size]?).map FieldExpr.names = some e.names
    simp
  · obtain rfl := Option.some.inj hx
    exact h

/-- So is an event. -/
theorem builds_pushEvent {e : EventExpr} (hb : (draws all now).Inv rs b) (hslots : ∀ s, .slot s ∈ e.names → s ∈ now)
    (hnames : ∀ n ∈ e.names, (draws all now).Usable b n) :
    (draws all now).Builds rs (Build.event e) b fun x b' => (draws all now).Usable b' (.event x) := by
  refine builds_draws_new hall (.event ⟨b.events.size⟩) e.names hb
    { Builder.Prefix.refl b with events := Build.prefix_push _ _ } (fun y ns hy => ?_) ?_ hslots hnames fun h x hx => ?_
  · cases y with
    | signal | field => exact .inl hy
    | event y =>
      obtain ⟨found, hfound, rfl⟩ := Option.map_eq_some_iff.1 hy
      rcases Build.getElem?_toList_push hfound with hold | ⟨hi, -⟩
      · exact .inl (Option.map_eq_some_iff.2 ⟨found, hold, rfl⟩)
      · exact .inr (congrArg (fun i => Expr.event ⟨i⟩) hi)
  · show ((b.events.push e).toList[b.events.size]?).map EventExpr.names = some e.names
    simp
  · obtain rfl := Option.some.inj hx
    exact h

/-- The elementary steps read no slot, so what they make is confined as their operands are. -/
theorem stateful_draws : (draws all now).Stateful where
  refl := Builder.Prefix.refl
  trans := Builder.Prefix.trans
  mono h hn x hx := (hn x hx).imp h.keeps fun _ h => h
  steady := id
  slotType := False.elim
  intern _ hb := builds_draws hb { Builder.Prefix.refl _ with } (fun _ _ h => h) nofun
  signal hb hread _ hnames := builds_pushSignal hall hb (fun s hs => absurd hs (SignalExpr.slot_not_mem_names hread s)) hnames
  field hb hread hnames := builds_pushField hall hb (fun s hs => absurd hs (FieldExpr.slot_not_mem_names hread s)) hnames
  event hb hread hnames := builds_pushEvent hall hb (fun s hs => absurd hs (EventExpr.slot_not_mem_names hread s)) hnames
  slotFor hb _ _ _ := builds_draws hb { Builder.Prefix.refl _ with slots := Build.prefix_push _ _ } (fun _ _ h => h) nofun
  handle _ _ hb := builds_draws hb { Builder.Prefix.refl _ with } (fun _ _ h => h) nofun
  renderSink hb _ _ := builds_draws hb { Builder.Prefix.refl _ with } (fun _ _ h => h) trivial
  camera hb _ _ := builds_draws hb { Builder.Prefix.refl _ with } (fun _ _ h => h) trivial
  assert hb _ _ := builds_assert fun _ => ⟨hb, { Builder.Prefix.refl _ with }⟩
  state _ _ hb := builds_draws hb { Builder.Prefix.refl _ with } (fun _ _ h => h) nofun
  stateSignal hb hstate hnames := builds_pushSignal hall hb
    (fun s hs => absurd hs (SignalExpr.slot_not_mem_names (SignalExpr.slot?_of_state? hstate) s)) hnames

/-- A slot is read only if it may be. -/
theorem readSlot_draws {s : SlotId} (hb : (draws all now).Inv rs b) (hs : s ∈ rs) :
    (draws all now).Builds rs (Build.readSlot s) b fun o b' => ∀ v ∈ o, (draws all now).Raw b' v := by
  have hslots : ∀ x, Name.slot x ∈ [Name.slot s] → x ∈ now := by
    intro x hx
    obtain rfl := Name.slot.inj (List.mem_singleton.1 hx)
    exact hb.1 x hs
  have hnames : ∀ n ∈ [Name.slot s], (draws all now).Usable b n := by
    intro n hn
    obtain rfl := List.mem_singleton.1 hn
    nofun
  exact builds_readSlot (stateful_draws hall).toElementary hb
    ⟨nofun, builds_pushSignal hall (e := .read s) hb hslots hnames, builds_pushField hall (e := .read s) hb hslots hnames,
      builds_pushEvent hall (e := .read s) hb hslots hnames⟩

end Draws

end Regime

end PatchGraph
