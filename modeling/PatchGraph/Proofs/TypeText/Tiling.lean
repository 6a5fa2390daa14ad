import Mathlib.Data.List.Basic
import Mathlib.Data.List.Pairwise
import PatchGraph.Proofs.TypeText.Lexemes

/-!
# Lexemes tile a type text

The lexemes of a text stand one after the other with nothing but blanks between them (`Tiles`): each is a word as long as it can be, a
symbol, or a character that starts neither (`StandsAs`). So the stretches of the tokens and of the stray characters are not empty, lie on
the boundaries of characters, and cover all bytes of the text but the blanks (`lexemes_tile`).
-/

namespace PatchGraph.TypeText

/-- Characters that are spelled like a token. -/
def IsToken (cs : List Char) (t : Token) : Prop := (IsRun cs ∧ t = Token.ofWord cs) ∨ ∃ c, cs = [c] ∧ symbol? c = some t

/-- How a lexeme stands before what follows it in a text: as a word that does not go on, as a symbol, or as a character that starts no
token and is no blank. -/
inductive Lexeme.StandsAs (after : List Char) : Lexeme → List Char → Prop where
  | word {w : List Char} {span : Span} (run : IsRun w) (ends : EndsWord after) : StandsAs after (.token (Token.ofWord w) span) w
  | symbol {c : Char} {t : Token} {span : Span} (symbol : symbol? c = some t) : StandsAs after (.token t span) [c]
  | stray {c : Char} {span : Span} (blank : isSpace c = false) (starts : ∀ cs t, ¬IsToken (c :: cs) t) :
    StandsAs after (.stray c span) [c]

/-- Lexemes stand one after the other in a text from a place on, with nothing but blanks between them. -/
inductive Tiles : Nat → List Char → List Lexeme → Prop where
  | done {place : Nat} : Tiles place [] []
  | blank {place : Nat} {c : Char} {cs : List Char} {ls : List Lexeme} (space : isSpace c = true)
    (rest : Tiles (place + c.utf8Size) cs ls) : Tiles place (c :: cs) ls
  | lexeme {place : Nat} {cs after : List Char} {l : Lexeme} {ls : List Lexeme} (stands : l.StandsAs after cs)
    (span : l.span = ⟨place, place + Text.width cs⟩) (rest : Tiles (place + Text.width cs) after ls) :
    Tiles place (cs ++ after) (l :: ls)

/-! ## Cutting a text -/

/-- After a word that is as long as it can be no word goes on. -/
theorem endsWord_dropWhile (cs : List Char) : EndsWord (cs.dropWhile isWordPart) := by
  intro c hc
  have hnot := List.head?_dropWhile_not isWordPart cs
  rw [Option.mem_def.1 hc] at hnot
  simpa using hnot

/-- A character that starts no word and is no symbol starts no token. -/
theorem not_isToken_cons {c : Char} (hstart : isWordStart c = false) (hsymbol : symbol? c = none) (cs : List Char) (t : Token) :
    ¬IsToken (c :: cs) t := by
  rintro (⟨⟨hrun, -⟩, -⟩ | ⟨d, hd, ht⟩)
  · rw [List.head?_cons, Option.any_some, hstart] at hrun
    cases hrun
  · rw [← (List.cons.inj hd).1, hsymbol] at ht
    cases ht

/-- The lexemes that a text is cut into tile it. -/
theorem tiles_scan (place : Nat) (cs : List Char) : Tiles place cs (scan place cs) := by
  fun_induction scan place cs with
  | case1 => exact .done
  | case2 place c rest hspace ih => exact .blank hspace ih
  | case3 place c rest _ hstart word ih =>
    have hrest : c :: rest = word ++ rest.dropWhile isWordPart := by rw [List.cons_append, List.takeWhile_append_dropWhile]
    rw [hrest]
    exact .lexeme (.word (isRun_takeWhile hstart rest) (endsWord_dropWhile rest)) rfl ih
  | case4 place c rest _ _ span t hsymbol ih =>
    rw [← List.singleton_append]
    exact .lexeme (.symbol hsymbol) rfl ih
  | case5 place c rest hspace hstart span hsymbol ih =>
    simp only [Bool.not_eq_true] at hspace hstart
    rw [← List.singleton_append]
    exact .lexeme (.stray hspace (not_isToken_cons hstart hsymbol)) rfl ih

/-! ## Where a lexeme stands -/

/-- A lexeme is found in the text at its place, with what it is spelled as before what follows it. -/
theorem Tiles.exists_standsAs {place : Nat} {cs : List Char} {ls : List Lexeme} (h : Tiles place cs ls) {l : Lexeme} (hl : l ∈ ls) :
    ∃ before middle after, cs = before ++ (middle ++ after) ∧ l.StandsAs after middle
      ∧ l.span = ⟨place + Text.width before, place + Text.width before + Text.width middle⟩ := by
  induction h with
  | done => cases hl
  | @blank place c cs ls _ _ ih =>
    obtain ⟨before, middle, after, rfl, hstands, hspan⟩ := ih hl
    refine ⟨c :: before, middle, after, rfl, hstands, ?_⟩
    rw [hspan, Text.width, Nat.add_assoc place]
  | @lexeme place cs after l' ls hstands hspan _ ih =>
    rcases List.mem_cons.1 hl with rfl | hl
    · exact ⟨[], cs, after, rfl, hstands, hspan⟩
    · obtain ⟨before, middle, after, rfl, hstands, hspan⟩ := ih hl
      refine ⟨cs ++ before, middle, after, (List.append_assoc ..).symm, hstands, ?_⟩
      rw [hspan, Text.width_append, Nat.add_assoc place]

/-- No lexeme starts before the text does. -/
theorem Tiles.place_le {place : Nat} {cs : List Char} {ls : List Lexeme} (h : Tiles place cs ls) : ∀ l ∈ ls, place ≤ l.span.start := by
  intro l hl
  obtain ⟨before, middle, after, -, -, hspan⟩ := h.exists_standsAs hl
  rw [hspan]
  exact Nat.le_add_right _ _

/-- A symbol is no blank. -/
theorem isSpace_of_symbol? {c : Char} {t : Token} (h : symbol? c = some t) : isSpace c = false := by
  unfold symbol? at h
  split at h
  case h_6 => cases h
  all_goals decide

/-- No part of a word is a blank. -/
theorem isSpace_of_isWordPart {c : Char} (h : isWordPart c = true) : isSpace c = false := by
  simp only [isWordPart, Bool.or_eq_true, decide_eq_true_eq] at h
  rcases h with (h | rfl) | rfl
  · exact isSpace_of_isWordStart h
  · decide
  · decide

namespace Lexeme.StandsAs

variable {l : Lexeme} {cs after : List Char}

/-- A lexeme is not empty. -/
theorem ne_nil (h : l.StandsAs after cs) : cs ≠ [] := by
  cases h with
  | word run _ =>
    rintro rfl
    cases run.1
  | symbol _ => exact List.cons_ne_nil _ _
  | stray _ _ => exact List.cons_ne_nil _ _

/-- There are no blanks in a lexeme. -/
theorem isSpace_eq_false (h : l.StandsAs after cs) : ∀ c ∈ cs, isSpace c = false := by
  cases h with
  | word run _ => exact fun c hc => isSpace_of_isWordPart (List.all_eq_true.1 run.2 c hc)
  | symbol h => exact List.forall_mem_singleton.2 (isSpace_of_symbol? h)
  | stray blank _ => exact List.forall_mem_singleton.2 blank

end Lexeme.StandsAs

/-! ## The bytes between lexemes -/

/-- The bytes of the blanks: space, tab, carriage return and line feed. -/
def blankBytes : List UInt8 := [0x20, 0x09, 0x0d, 0x0a]

/-- A blank is a single byte. -/
theorem utf8EncodeChar_of_isSpace {c : Char} (h : isSpace c = true) : ∃ b ∈ blankBytes, String.utf8EncodeChar c = [b] := by
  simp only [isSpace, Bool.or_eq_true, decide_eq_true_eq] at h
  rcases h with ((rfl | rfl) | rfl) | rfl
  · exact ⟨0x20, by decide, by decide⟩
  · exact ⟨0x09, by decide, by decide⟩
  · exact ⟨0x0d, by decide, by decide⟩
  · exact ⟨0x0a, by decide, by decide⟩

/-- The bytes of other characters are none of the bytes of the blanks. -/
theorem not_mem_blankBytes {c : Char} (h : isSpace c = false) : ∀ b ∈ String.utf8EncodeChar c, b ∉ blankBytes := by
  intro b hb hblank
  refine absurd h (Bool.not_eq_false _ ▸ ?_)
  simp only [isSpace, Bool.or_eq_true, decide_eq_true_eq, ← Char.toNat_inj]
  have hc := Text.toNat_eq_of_mem_utf8EncodeChar hb
  simp only [blankBytes, List.mem_cons, List.not_mem_nil, or_false] at hblank
  rcases hblank with rfl | rfl | rfl | rfl
  · exact .inl (.inl (.inl (hc (by decide))))
  · exact .inl (.inl (.inr (hc (by decide))))
  · exact .inl (.inr (hc (by decide)))
  · exact .inr (hc (by decide))

/-- The bytes of a text that no lexeme covers are those of the blanks. -/
theorem Tiles.covered_iff {place : Nat} {cs : List Char} {ls : List Lexeme} (h : Tiles place cs ls) {i : Nat} {b : UInt8}
    (hb : (cs.flatMap String.utf8EncodeChar)[i]? = some b) :
    (∃ l ∈ ls, l.span.start ≤ place + i ∧ place + i < l.span.stop) ↔ b ∉ blankBytes := by
  induction h generalizing i with
  | done => cases hb
  | @blank place c cs ls hspace hrest ih =>
    obtain ⟨blank, hblank, hbytes⟩ := utf8EncodeChar_of_isSpace hspace
    have hsize : c.utf8Size = 1 := by rw [← String.length_utf8EncodeChar, hbytes]; rfl
    rw [List.flatMap_cons, hbytes, List.singleton_append] at hb
    cases i with
    | zero =>
      obtain rfl : blank = b := Option.some.inj hb
      refine ⟨?_, fun hnot => absurd hblank hnot⟩
      rintro ⟨l, hl, hstart, -⟩
      have := hrest.place_le l hl
      omega
    | succ i =>
      have hi := ih hb
      rwa [hsize, Nat.add_right_comm, Nat.add_assoc] at hi
  | @lexeme place cs after l ls hstands hspan hrest ih =>
    rw [List.flatMap_append] at hb
    have hlength : (cs.flatMap String.utf8EncodeChar).length = Text.width cs := by
      rw [← Text.bytes_ofList, Text.length_bytes_ofList]
    by_cases hi : i < Text.width cs
    · rw [List.getElem?_append_left (hlength ▸ hi)] at hb
      obtain ⟨c, hc, hbc⟩ := List.mem_flatMap.1 (List.mem_of_getElem? hb)
      refine ⟨fun _ => not_mem_blankBytes (hstands.isSpace_eq_false c hc) b hbc, fun _ => ⟨l, List.mem_cons_self, ?_⟩⟩
      rw [hspan]
      exact ⟨Nat.le_add_right _ _, Nat.add_lt_add_left hi place⟩
    · obtain ⟨j, rfl⟩ := Nat.exists_eq_add_of_le (Nat.not_lt.1 hi)
      rw [List.getElem?_append_right (by omega), hlength, Nat.add_sub_cancel_left] at hb
      refine Iff.trans ?_ (ih hb)
      rw [← Nat.add_assoc, List.exists_mem_cons_iff, hspan]
      exact or_iff_right fun hcovers => Nat.not_lt.2 (Nat.le_add_right _ _) hcovers.2

/-- There is one keyword only. -/
theorem Token.ofWord_eq_internal_iff {w : List Char} : Token.ofWord w = .internal ↔ String.ofList w = "internal" := by
  rw [← String.toList_inj, String.toList_ofList]
  unfold Token.ofWord
  split
  · simp [*]
  · simp [*]

/-! ## The whole text -/

/-- The stretches of the tokens of a text. -/
def tokenSpans (text : String) : List Span := (tokensOf (lexemes text)).map (·.2)

/-- The stretches of the stray characters of a text. -/
def straySpans (text : String) : List Span := (straysOf (lexemes text)).map (·.2)

/-- A stretch ends before another starts. -/
def Span.Precedes (a b : Span) : Prop := a.stop ≤ b.start

/-- The tokens are the lexemes that are tokens. -/
theorem mem_tokensOf {ls : List Lexeme} {t : Token} {span : Span} : (t, span) ∈ tokensOf ls ↔ .token t span ∈ ls := by
  simp only [tokensOf, List.mem_filterMap]
  refine ⟨?_, fun h => ⟨_, h, rfl⟩⟩
  rintro ⟨_ | _, hl, h⟩
  · obtain ⟨rfl, rfl⟩ := Prod.mk.inj (Option.some.inj h)
    exact hl
  · cases h

/-- The stray characters are the lexemes that are stray. -/
theorem mem_straysOf {ls : List Lexeme} {c : Char} {span : Span} : (c, span) ∈ straysOf ls ↔ .stray c span ∈ ls := by
  simp only [straysOf, List.mem_filterMap]
  refine ⟨?_, fun h => ⟨_, h, rfl⟩⟩
  rintro ⟨_ | _, hl, h⟩
  · cases h
  · obtain ⟨rfl, rfl⟩ := Prod.mk.inj (Option.some.inj h)
    exact hl

/-- The stretches of tokens are those of lexemes that are tokens. -/
theorem mem_tokenSpans {text : String} {span : Span} : span ∈ tokenSpans text ↔ ∃ t, .token t span ∈ lexemes text := by
  simp [tokenSpans, mem_tokensOf]

/-- The stretches of stray characters are those of lexemes that are stray. -/
theorem mem_straySpans {text : String} {span : Span} : span ∈ straySpans text ↔ ∃ c, .stray c span ∈ lexemes text := by
  simp [straySpans, mem_straysOf]

/-- The stretches of a text are those of its lexemes. -/
theorem mem_spans {text : String} {span : Span} :
    span ∈ tokenSpans text ++ straySpans text ↔ ∃ l ∈ lexemes text, l.span = span := by
  rw [List.mem_append, mem_tokenSpans, mem_straySpans]
  constructor
  · rintro (⟨t, hl⟩ | ⟨c, hl⟩)
    · exact ⟨_, hl, rfl⟩
    · exact ⟨_, hl, rfl⟩
  · rintro ⟨t | c, hl, rfl⟩
    · exact .inl ⟨_, hl⟩
    · exact .inr ⟨_, hl⟩

/-- Each lexeme is a token or stray. -/
theorem exists_mem_spans {text : String} {P : Span → Prop} :
    (∃ span ∈ tokenSpans text ++ straySpans text, P span) ↔ ∃ l ∈ lexemes text, P l.span := by
  simp only [mem_spans]
  constructor
  · rintro ⟨_, ⟨l, hl, rfl⟩, h⟩
    exact ⟨l, hl, h⟩
  · rintro ⟨l, hl, h⟩
    exact ⟨_, ⟨l, hl, rfl⟩, h⟩

/-- Stretches that are picked from the lexemes of a text are in order. -/
theorem pairwise_spans {α : Type} {pick : Lexeme → Option (α × Span)} (hpick : ∀ l, ∀ x ∈ pick l, x.2 = l.span) (text : String) :
    (((lexemes text).filterMap pick).map (·.2)).Pairwise Span.Precedes := by
  refine List.pairwise_map.2 (List.pairwise_filterMap.2 ((ordered_lexemes text).imp ?_))
  intro l m hle x hx y hy
  rw [Span.Precedes, hpick l x hx, hpick m y hy]
  exact hle

theorem pairwise_tokenSpans (text : String) : (tokenSpans text).Pairwise Span.Precedes := by
  refine pairwise_spans ?_ text
  rintro (_ | _) x hx <;> cases hx
  rfl

theorem pairwise_straySpans (text : String) : (straySpans text).Pairwise Span.Precedes := by
  refine pairwise_spans ?_ text
  rintro (_ | _) x hx <;> cases hx
  rfl

/-- A token and a stray character stand apart. -/
theorem precedes_or_precedes {text : String} {a b : Span} (ha : a ∈ tokenSpans text) (hb : b ∈ straySpans text) :
    a.Precedes b ∨ b.Precedes a := by
  obtain ⟨t, hl⟩ := mem_tokenSpans.1 ha
  obtain ⟨c, hm⟩ := mem_straySpans.1 hb
  let Apart (l m : Lexeme) : Prop := l.span.Precedes m.span ∨ m.span.Precedes l.span
  have hsymm : Std.Symm Apart := ⟨fun _ _ => Or.symm⟩
  have hapart : (lexemes text).Pairwise Apart := (ordered_lexemes text).imp Or.inl
  exact hapart.forall hl hm Lexeme.noConfusion

/-- Where characters end there is a boundary of the text. -/
theorem isValid_width {text : String} {before after : List Char} (h : text.toList = before ++ after) :
    String.Pos.Raw.IsValid text ⟨Text.width before⟩ := by
  refine String.Pos.Raw.isValid_iff_exists_append.2 ⟨String.ofList before, String.ofList after, ?_, ?_⟩
  · rw [← String.ofList_append, ← h, String.ofList_toList]
  · rw [← Text.length_bytes_ofList]
    rfl

/-- Every lexeme of a text stands at its place. -/
theorem exists_standsAs {text : String} {l : Lexeme} (hl : l ∈ lexemes text) :
    ∃ before middle after, text.toList = before ++ (middle ++ after) ∧ l.StandsAs after middle
      ∧ l.span = ⟨Text.width before, Text.width before + Text.width middle⟩ := by
  obtain ⟨before, middle, after, htext, hstands, hspan⟩ := (tiles_scan 0 text.toList).exists_standsAs hl
  rw [Nat.zero_add] at hspan
  exact ⟨before, middle, after, htext, hstands, hspan⟩

/-- The stretches of the tokens and of the stray characters of a text are not empty and lie on the boundaries of characters; those of
the tokens are in order, those of the stray characters are in order, and they stand apart. Together they cover all bytes of the text
but those of the blanks. A stray character starts no token. A word, or the word `internal`, is as long as it can be. -/
theorem lexemes_tile (text : String) :
    (∀ span ∈ tokenSpans text ++ straySpans text,
        span.start < span.stop ∧ String.Pos.Raw.IsValid text ⟨span.start⟩ ∧ String.Pos.Raw.IsValid text ⟨span.stop⟩)
      ∧ (tokenSpans text).Pairwise Span.Precedes ∧ (straySpans text).Pairwise Span.Precedes
      ∧ (∀ a ∈ tokenSpans text, ∀ b ∈ straySpans text, a.Precedes b ∨ b.Precedes a)
      ∧ (∀ i b, (Text.bytes text)[i]? = some b →
        ((∃ span ∈ tokenSpans text ++ straySpans text, span.start ≤ i ∧ i < span.stop) ↔ b ∉ blankBytes))
      ∧ (∀ c span, (c, span) ∈ straysOf (lexemes text) →
        span.bytes text = String.utf8EncodeChar c ∧ ∀ cs t, ¬IsToken (c :: cs) t)
      ∧ ∀ t span, (t, span) ∈ tokensOf (lexemes text) → (t = .internal ∨ ∃ s, t = .word s) →
        ∃ before w after, text.toList = before ++ (w ++ after) ∧ span = ⟨Text.width before, Text.width before + Text.width w⟩
          ∧ IsRun w ∧ EndsWord after ∧ (t = .internal ↔ String.ofList w = "internal") := by
  refine ⟨fun span hspan => ?_, pairwise_tokenSpans text, pairwise_straySpans text, fun a ha b hb => precedes_or_precedes ha hb,
    fun i b hb => ?_, fun c span hmem => ?_, fun t span hmem ht => ?_⟩
  · obtain ⟨l, hl, rfl⟩ := mem_spans.1 hspan
    obtain ⟨before, middle, after, htext, hstands, hspan⟩ := exists_standsAs hl
    rw [hspan, ← Text.width_append]
    refine ⟨?_, isValid_width htext, isValid_width (htext.trans (List.append_assoc ..).symm)⟩
    rw [Text.width_append]
    exact Nat.lt_add_of_pos_right (Text.width_pos hstands.ne_nil)
  · rw [Text.bytes_eq_flatMap] at hb
    rw [← (tiles_scan 0 text.toList).covered_iff hb, Nat.zero_add]
    exact exists_mem_spans
  · have hl := mem_straysOf.1 hmem
    obtain ⟨before, middle, after, -, hstands, -⟩ := exists_standsAs hl
    cases hstands with
    | stray _ starts =>
      refine ⟨(spelled_lexemes text _ hl).trans ?_, starts⟩
      rw [Lexeme.spelling, Text.bytes_ofList, List.flatMap_singleton]
  · obtain ⟨before, w, after, htext, hstands, hspan⟩ := exists_standsAs (mem_tokensOf.1 hmem)
    refine ⟨before, w, after, htext, hspan, ?_⟩
    cases hstands with
    | word run ends => exact ⟨run, ends, Token.ofWord_eq_internal_iff⟩
    | symbol h =>
      rcases ht with ht | ⟨s, ht⟩
      · exact absurd ht (ne_word_of_symbol? h).1
      · exact absurd ht ((ne_word_of_symbol? h).2 s)

end PatchGraph.TypeText
