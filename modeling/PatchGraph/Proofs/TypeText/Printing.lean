import PatchGraph.Proofs.TypeText.Grammar
import PatchGraph.ValueType

/-!
# Types as texts

A type has a text of its own, with the remarks in a fixed order and the current name of its domain. The text is read back as the type
exactly as it is, as long as its remarks are words (`ValueType.Legible`): then the text is cut into the tokens of its parts
(`lexes_display`), and the type is made of these parts again. Reading a text gives remarks that are words, and no change of world or domain
adds one, so every type that comes from a text survives the round trip (`parse_display_of_parse`).
-/

namespace PatchGraph

open TypeText

/-! ## Parts of a type -/

/-- A world is found by its title. -/
theorem World.ofTitle?_title (w : World) : World.ofTitle? w.title = some w := by
  cases w <;> decide

/-- A domain is found by its current name. -/
theorem Domain.ofName?_name (d : Domain) : Domain.ofName? d.name = some d := by
  cases d <;> decide

/-- Worlds are words. -/
theorem World.isWord_title (w : World) : IsWord w.title := by
  cases w <;> decide

/-- Domains are words. -/
theorem Domain.isWord_name (d : Domain) : IsWord d.name := by
  cases d <;> decide

namespace ValueType

/-- The remarks of a type as annotations. -/
def notes (t : ValueType) : List (String × String) :=
  t.unit.toList.map (Prod.mk "unit") ++ t.semantics.toList.map (Prod.mk "semantics")

/-- The parts that a type is written with. -/
def raw (t : ValueType) : Raw := ⟨t.category = .internal, t.world.title, t.domain.name, t.notes⟩

/-- A type is made of its own parts. -/
theorem ofRaw_raw (t : ValueType) : ofRaw t.raw = .ok t := by
  rcases t with ⟨world, domain, category, semantics, unit⟩
  simp only [ofRaw, raw, World.ofTitle?_title, Domain.ofName?_name]
  cases category <;> cases semantics <;> cases unit <;> rfl

/-! ## Printing -/

/-- The remarks of a type are words. -/
structure Legible (t : ValueType) : Prop where
  unit : ∀ s, t.unit = some s → IsWord s
  semantics : ∀ s, t.semantics = some s → IsWord s

/-- The remarks of a legible type are words with words. -/
theorem Legible.notes {t : ValueType} (h : t.Legible) : ∀ note ∈ t.notes, IsWord note.1 ∧ IsWord note.2 := by
  intro note hnote
  rcases List.mem_append.1 hnote with hnote | hnote
  · obtain ⟨s, hs, rfl⟩ := List.mem_map.1 hnote
    exact ⟨show IsWord "unit" by decide, h.unit s (Option.mem_toList.1 hs)⟩
  · obtain ⟨s, hs, rfl⟩ := List.mem_map.1 hnote
    exact ⟨show IsWord "semantics" by decide, h.semantics s (Option.mem_toList.1 hs)⟩

/-- The characters of an annotation. -/
def noteChars (note : String × String) : List Char := ' ' :: '@' :: (note.1.toList ++ '(' :: (note.2.toList ++ [')']))

/-- The characters of the text of a type. -/
theorem toList_display (t : ValueType) :
    t.display.toList = (if t.category = .internal then "internal ".toList else [])
      ++ (t.world.title.toList ++ '<' :: (t.domain.name.toList ++ '>' :: t.notes.flatMap noteChars)) := by
  rcases t with ⟨world, domain, category, semantics, unit⟩
  cases category <;> cases semantics <;> cases unit <;> simp [display, ValueType.notes, noteChars, toString]

/-- A character that goes on in no word ends one. -/
theorem endsWord_cons {c : Char} (hc : isWordPart c = false) (cs : List Char) : EndsWord (c :: cs) := by
  intro d hd
  rwa [← Option.some.inj hd]

/-- Annotations of words are cut into their tokens. -/
theorem lexes_notes {notes : List (String × String)} (h : ∀ note ∈ notes, IsWord note.1 ∧ IsWord note.2) :
    Lexes (notes.flatMap noteChars) (notes.flatMap noteTokens) := by
  induction notes with
  | nil => exact .nil
  | cons note notes ih =>
    obtain ⟨⟨hkey, hvalue⟩, hnotes⟩ := List.forall_mem_cons.1 h
    have hclosing := (ih hnotes).symbol (c := ')') rfl
    have hopening := (hclosing.word hvalue (endsWord_cons rfl _)).symbol (c := '(') rfl
    have hat := (hopening.word hkey (endsWord_cons rfl _)).symbol (c := '@') rfl
    simpa [noteChars, noteTokens] using hat.space (c := ' ') rfl

/-- The text of a legible type is cut into the tokens of its parts. -/
theorem lexes_display {t : ValueType} (h : t.Legible) : Lexes t.display.toList t.raw.tokens := by
  have hgreater := (lexes_notes h.notes).symbol (c := '>') rfl
  have hless := (hgreater.word t.domain.isWord_name (endsWord_cons rfl _)).symbol (c := '<') rfl
  have hworld := hless.word t.world.isWord_title (endsWord_cons rfl _)
  rw [toList_display]
  cases hcategory : t.category with
  | core => simpa [raw, Raw.tokens, hcategory] using hworld
  | internal =>
    have hinternal := (hworld.space (c := ' ') rfl).run (w := "internal".toList) (by decide) (endsWord_cons rfl _)
    simpa [raw, Raw.tokens, hcategory, Token.ofWord] using hinternal

/-- The text of a legible type is read as the type. -/
theorem Legible.parse_display {t : ValueType} (h : t.Legible) : parse t.display = .ok t := by
  have hraw : TypeText.parse t.display = .ok t.raw := parse_eq_ok_iff.2 ⟨(lexes_display h 0).2, (lexes_display h 0).1⟩
  rw [parse, hraw]
  exact ofRaw_raw t

/-! ## Types that come from texts -/

/-- A type that is given remarks that are words is legible. -/
theorem Legible.annotate {t u : ValueType} {notes : List (String × String)} (ht : t.Legible) (hnotes : ∀ note ∈ notes, IsWord note.2)
    (h : annotate t notes = .ok u) : u.Legible := by
  fun_induction ValueType.annotate t notes with
  | case1 t =>
    obtain rfl := Except.ok.inj h
    exact ht
  | case2 t value rest ih =>
    obtain ⟨hvalue, hrest⟩ := List.forall_mem_cons.1 hnotes
    exact ih ⟨fun s hs => Option.some.inj hs ▸ hvalue, ht.semantics⟩ hrest h
  | case3 t value rest _ ih =>
    obtain ⟨hvalue, hrest⟩ := List.forall_mem_cons.1 hnotes
    exact ih ⟨ht.unit, fun s hs => Option.some.inj hs ▸ hvalue⟩ hrest h
  | case4 => cases h

/-- The values of annotations are words. -/
theorem isWord_of_mem_annotations {text : String} {raw : Raw} (h : TypeText.parse text = .ok raw) :
    ∀ note ∈ raw.annotations, IsWord note.2 := by
  intro note hnote
  have hmem : .word note.2 ∈ tokens text := by
    rw [(parse_eq_ok_iff.1 h).2]
    refine List.mem_append_right _ (List.mem_flatMap.2 ⟨note, hnote, ?_⟩)
    simp [noteTokens]
  obtain ⟨⟨t, span⟩, htoken, rfl⟩ := List.mem_map.1 hmem
  obtain ⟨l, hl, hltoken⟩ := List.mem_filterMap.1 htoken
  cases l with
  | stray => cases hltoken
  | token t' span' =>
    obtain ⟨rfl, rfl⟩ := Prod.mk.inj (Option.some.inj hltoken)
    exact isWord_of_mem_scan hl

/-- A type that is read from a text is legible. -/
theorem legible_of_parse {text : String} {t : ValueType} (h : parse text = .ok t) : t.Legible := by
  unfold parse at h
  cases hraw : TypeText.parse text with
  | error errors => rw [hraw] at h; cases h
  | ok raw =>
    rw [hraw] at h
    change ofRaw raw = .ok t at h
    unfold ofRaw at h
    cases hworld : World.ofTitle? raw.world with
    | none => rw [hworld] at h; cases h
    | some world =>
      rw [hworld] at h
      cases hdomain : Domain.ofName? raw.domain with
      | none => rw [hdomain] at h; cases h
      | some domain =>
        rw [hdomain] at h
        refine Legible.annotate ⟨?_, ?_⟩ (isWord_of_mem_annotations hraw) h
        · intro s hs
          cases hs
        · intro s hs
          cases hs

end ValueType

/-- A change of a type. -/
inductive TypeChange where
  | effect (e : TypeEffect)
  | world (w : World)
  | domain (d : Domain)
  deriving DecidableEq

namespace TypeChange

/-- The type after a change. -/
def apply : TypeChange → ValueType → ValueType
  | .effect e, t => e.apply t
  | .world w, t => t.withWorld w
  | .domain d, t => t.withDomain d

/-- The type after changes, one after the other. -/
def applyAll (changes : List TypeChange) (t : ValueType) : ValueType := changes.foldl (fun t c => c.apply t) t

end TypeChange

namespace ValueType

/-- A change of world adds no remark. -/
theorem Legible.withWorld {t : ValueType} (h : t.Legible) (w : World) : (t.withWorld w).Legible := ⟨h.unit, h.semantics⟩

/-- A change of domain adds no remark. -/
theorem Legible.withDomain {t : ValueType} (h : t.Legible) (d : Domain) : (t.withDomain d).Legible :=
  ⟨h.unit, fun _ hs => by cases hs⟩

/-- No change makes a type illegible. -/
theorem Legible.change {t : ValueType} (h : t.Legible) (c : TypeChange) : (c.apply t).Legible := by
  cases c with
  | world w => exact h.withWorld w
  | domain d => exact h.withDomain d
  | effect e =>
    rcases e with ⟨_ | w, _ | d⟩
    · exact h
    · exact h.withDomain d
    · exact h.withWorld w
    · exact (h.withWorld w).withDomain d

/-- Any number of changes adds no remark. -/
theorem Legible.changeAll {t : ValueType} (h : t.Legible) (changes : List TypeChange) : (TypeChange.applyAll changes t).Legible := by
  induction changes generalizing t with
  | nil => exact h
  | cons c rest ih => exact ih (h.change c)

/-- Every type that comes from a text, by reading it and by changes of world and domain, is read back from its own text. -/
theorem parse_display_of_parse {text : String} {t : ValueType} (h : parse text = .ok t) (changes : List TypeChange) :
    parse (TypeChange.applyAll changes t).display = .ok (TypeChange.applyAll changes t) :=
  ((legible_of_parse h).changeAll changes).parse_display

theorem parse_display_of_parse_point :
    parse "internal\tFIELD<point>@unit(px)@semantics(internal.position) @unit(m/s)"
        = .ok ⟨.field, .vec2, .internal, some "internal.position", some "m/s"⟩
      ∧ parse "internal Scalar<color> @unit(m/s)" = .ok ⟨.scalar, .color, .internal, none, some "m/s"⟩ := by
  have h : parse "internal\tFIELD<point>@unit(px)@semantics(internal.position) @unit(m/s)"
      = .ok ⟨.field, .vec2, .internal, some "internal.position", some "m/s"⟩ := by
    decide +kernel
  exact ⟨h, parse_display_of_parse h [.effect { world := some .signal, domain := some .color }, .world .scalar]⟩

end ValueType

end PatchGraph
