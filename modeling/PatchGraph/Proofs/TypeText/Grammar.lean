import PatchGraph.Proofs.TypeText.Lexemes
import PatchGraph.TypeText.Grammar

/-!
# What the grammar of type texts accepts

The parts of a type have one sequence of tokens (`Raw.tokens`), and the parser finds these parts in exactly this sequence
(`ofTokens_eq_ok_iff`). So a text is accepted exactly if it has no stray characters and the tokens of some type, and the parts are spelled
as they are in the text. Any other text has an error for each stray character, in the order of the text, and after them one more if the
tokens are not those of a type (`parse_follows_grammar`).
-/

namespace PatchGraph.TypeText

/-- The tokens of an annotation. -/
def noteTokens (note : String × String) : List Token := [.at, .word note.1, .opening, .word note.2, .closing]

/-- The tokens of the parts of a type: an optional `internal`, the world, the domain in angle brackets, the annotations. -/
def Raw.tokens (raw : Raw) : List Token :=
  (if raw.internal then [.internal] else []) ++ [.word raw.world, .less, .word raw.domain, .greater]
    ++ raw.annotations.flatMap noteTokens

/-! ## Tokens and parts -/

theorem annotations_flatMap (notes : List (String × String)) : annotations (notes.flatMap noteTokens) = .ok notes := by
  induction notes with
  | nil => rfl
  | cons note notes ih =>
    rw [List.flatMap_cons]
    show (annotations (notes.flatMap noteTokens)).map ((note.1, note.2) :: ·) = _
    rw [ih]
    rfl

theorem eq_flatMap_of_annotations {ts : List Token} {notes : List (String × String)} (h : annotations ts = .ok notes) :
    ts = notes.flatMap noteTokens := by
  fun_induction annotations ts generalizing notes with
  | case1 =>
    obtain rfl := Except.ok.inj h
    rfl
  | case2 key value rest ih =>
    cases hrest : annotations rest with
    | error m => rw [hrest] at h; cases h
    | ok more =>
      rw [hrest] at h
      obtain rfl := Except.ok.inj h
      rw [List.flatMap_cons, ← ih hrest]
      rfl
  | case3 => cases h

/-- A type after its optional `internal` is read from the tokens of its other parts alone. -/
theorem body_eq_ok_iff {internal : Bool} {first : Slot} {ts : List Token} {raw : Raw} :
    body internal first ts = .ok raw ↔
      raw.internal = internal
        ∧ ts = [.word raw.world, .less, .word raw.domain, .greater] ++ raw.annotations.flatMap noteTokens := by
  constructor
  · intro h
    unfold body at h
    split at h
    · rename_i world domain rest
      cases hrest : annotations rest with
      | error m => rw [hrest] at h; cases h
      | ok notes =>
        rw [hrest] at h
        obtain rfl := Except.ok.inj h
        rw [eq_flatMap_of_annotations hrest]
        exact ⟨rfl, rfl⟩
    · cases h
  · rintro ⟨rfl, rfl⟩
    show (annotations (raw.annotations.flatMap noteTokens)).map _ = _
    rw [annotations_flatMap]
    rfl

/-- The parts of a type are found in its tokens and in no others. -/
theorem ofTokens_eq_ok_iff {ts : List Token} {raw : Raw} : ofTokens ts = .ok raw ↔ ts = raw.tokens := by
  unfold ofTokens Raw.tokens
  split
  · rename_i rest
    rw [body_eq_ok_iff]
    cases raw.internal <;> simp
  · rename_i hinternal
    rw [body_eq_ok_iff]
    cases raw.internal with
    | false => simp
    | true =>
      constructor
      · intro h
        cases h.1
      · intro h
        exact absurd h (hinternal _)

/-! ## Texts -/

/-- The tokens of a text. -/
def tokens (text : String) : List Token := (tokensOf (lexemes text)).map (·.1)

/-- The errors for the stray characters of a text. -/
def strayErrors (text : String) : List Error := (straysOf (lexemes text)).map fun (c, span) => .stray c span

theorem strayErrors_eq_nil_iff {text : String} : strayErrors text = [] ↔ straysOf (lexemes text) = [] := List.map_eq_nil_iff

/-- Whatever the tokens of a type are mixed with is reported alone. -/
theorem parse_of_ok {text : String} {raw : Raw} (h : ofTokens (tokens text) = .ok raw) :
    parse text = if (strayErrors text).isEmpty then .ok raw else .error (strayErrors text) := by
  unfold tokens at h
  simp only [parse, h]
  rfl

/-- Where the tokens are not those of a type, that is reported last. -/
theorem parse_of_error {text : String} {m : Misfit} (h : ofTokens (tokens text) = .error m) :
    parse text = .error (strayErrors text ++ [.misfit m]) := by
  unfold tokens at h
  simp only [parse, h]
  rfl

theorem parse_eq_ok_iff {text : String} {raw : Raw} :
    parse text = .ok raw ↔ straysOf (lexemes text) = [] ∧ tokens text = raw.tokens := by
  rw [← strayErrors_eq_nil_iff, ← ofTokens_eq_ok_iff]
  cases h : ofTokens (tokens text) with
  | error m => simp [parse_of_error h]
  | ok found =>
    rw [parse_of_ok h]
    cases strayErrors text <;> simp

/-- A text is accepted exactly if nothing in it is stray and its tokens are those of a type, whose parts are then found, each spelled as the
text is where it stands. The errors of any other text are one for each stray character, in the order of the text, and at most one more,
which is there exactly if the tokens are not those of a type. -/
theorem parse_follows_grammar (text : String) :
    (∀ raw, parse text = .ok raw ↔ straysOf (lexemes text) = [] ∧ tokens text = raw.tokens)
      ∧ (∀ l ∈ lexemes text, l.SpelledIn text)
      ∧ ((lexemes text).Pairwise fun l m => l.span.stop ≤ m.span.start)
      ∧ ∀ errors, parse text = .error errors → errors ≠ [] ∧ ∃ grammar : Option Misfit,
          errors = strayErrors text ++ grammar.toList.map .misfit ∧ (grammar = none ↔ ∃ raw : Raw, tokens text = raw.tokens) := by
  refine ⟨fun raw => parse_eq_ok_iff, spelled_lexemes text, ordered_lexemes text, fun errors herrors => ?_⟩
  cases h : ofTokens (tokens text) with
  | error m =>
    have hnone : ¬ ∃ raw : Raw, tokens text = raw.tokens := by
      rintro ⟨raw, hraw⟩
      cases h.symm.trans (ofTokens_eq_ok_iff.2 hraw)
    rw [parse_of_error h] at herrors
    obtain rfl := Except.error.inj herrors
    exact ⟨List.append_ne_nil_of_right_ne_nil _ (List.cons_ne_nil _ _), some m, rfl, iff_of_false (Option.some_ne_none m) hnone⟩
  | ok raw =>
    rw [parse_of_ok h] at herrors
    split at herrors
    · cases herrors
    · rename_i hstrays
      obtain rfl := Except.error.inj herrors
      refine ⟨fun hnil => hstrays (List.isEmpty_iff.2 hnil), none, (List.append_nil _).symm, iff_of_true rfl ⟨raw, ?_⟩⟩
      exact ofTokens_eq_ok_iff.1 h

example : parse "internal Field<vec2>é @unit(m/s" =
    .error [.stray 'é' ⟨20, 22⟩, .misfit ⟨none, .closing⟩] := by
  decide +kernel

end PatchGraph.TypeText
