import PatchGraph.Proofs.Text.Bytes
import PatchGraph.TypeText.Token

/-!
# The lexemes of a type text

A type text is cut into lexemes. Each lexeme is spelled as the bytes of the text in its stretch (`spelled_lexemes`), and stretches follow
one another as the lexemes do (`ordered_lexemes`). Characters that are cut into tokens alone can be built up from the end of a text
(`Lexes`): a blank before them adds nothing, a symbol adds its token, and so does a word if no other word goes on right after it.
-/

namespace PatchGraph

/-! ## Bytes of characters -/

namespace Text

/-- The bytes of a text are those of its characters. -/
theorem bytes_ofList (cs : List Char) : bytes (String.ofList cs) = cs.flatMap String.utf8EncodeChar := by
  rw [bytes_eq_flatMap, String.toList_ofList]

theorem width_append (cs ds : List Char) : width (cs ++ ds) = width cs + width ds := by
  induction cs with
  | nil => exact (Nat.zero_add _).symm
  | cons c cs ih => rw [List.cons_append, width, width, ih, Nat.add_assoc]

/-- The width of characters is the number of their bytes. -/
theorem length_bytes_ofList (cs : List Char) : (bytes (String.ofList cs)).length = width cs := by
  rw [bytes_ofList]
  induction cs with
  | nil => rfl
  | cons c cs ih => rw [List.flatMap_cons, List.length_append, String.length_utf8EncodeChar, ih, width]

/-- Characters take at least one byte. -/
theorem width_pos {cs : List Char} (h : cs ≠ []) : 0 < width cs := by
  cases cs with
  | nil => exact absurd rfl h
  | cons c cs => exact Nat.add_pos_left c.utf8Size_pos _

/-- No byte that continues a character is a character of its own. -/
theorem le_toNat_of_mem_continuation {v k : Nat} {b : UInt8} (h : b ∈ continuation v k) : 0x80 ≤ b.toNat := by
  induction k with
  | zero => cases h
  | succ k ih =>
    rcases List.mem_cons.1 h with rfl | h
    · rw [UInt8.toNat_ofNat']
      omega
    · exact ih h

/-- A byte below 128 is a character of its own. -/
theorem toNat_eq_of_mem_utf8EncodeChar {c : Char} {b : UInt8} (h : b ∈ String.utf8EncodeChar c) (hb : b.toNat < 0x80) :
    c.toNat = b.toNat := by
  obtain ⟨first, k, hlead, hbytes⟩ := exists_isLead c
  rw [hbytes] at h
  rcases List.mem_cons.1 h with rfl | h
  · rw [UInt8.toNat_ofNat'] at hb ⊢
    unfold IsLead at hlead
    omega
  · have := le_toNat_of_mem_continuation h
    omega

end Text

namespace TypeText

/-! ## The spelling of lexemes -/

/-- The bytes of a text in a stretch. -/
def Span.bytes (span : Span) (text : String) : List UInt8 := (Text.bytes text).extract span.start span.stop

/-- A token as it is written in a text. -/
def Token.spelling : Token → String
  | .internal => "internal"
  | .word text => text
  | .less => "<"
  | .greater => ">"
  | .at => "@"
  | .opening => "("
  | .closing => ")"

/-- The stretch of a lexeme. -/
def Lexeme.span : Lexeme → Span
  | .token _ span | .stray _ span => span

/-- A lexeme as it is written in a text. -/
def Lexeme.spelling : Lexeme → String
  | .token t _ => t.spelling
  | .stray c _ => String.ofList [c]

/-- A word is spelled as it is. -/
theorem Token.spelling_ofWord (cs : List Char) : (Token.ofWord cs).spelling = String.ofList cs := by
  unfold Token.ofWord
  split
  · subst cs
    rfl
  · rfl

/-- A symbol is spelled as it is. -/
theorem Token.spelling_of_symbol? {c : Char} {t : Token} (h : symbol? c = some t) : t.spelling = String.ofList [c] := by
  unfold symbol? at h
  split at h <;> cases h <;> rfl

/-- A symbol is no word. -/
theorem ne_word_of_symbol? {c : Char} {t : Token} (h : symbol? c = some t) : t ≠ .internal ∧ ∀ s, t ≠ .word s := by
  unfold symbol? at h
  split at h <;> cases h <;> simp

/-- A lexeme is spelled as the text is in its stretch. -/
def Lexeme.SpelledIn (text : String) (l : Lexeme) : Prop := l.span.bytes text = Text.bytes l.spelling

/-- Characters between others take the stretch between their widths. -/
theorem Lexeme.spelledIn_between (before middle after : List Char) {l : Lexeme}
    (hspan : l.span = ⟨Text.width before, Text.width before + Text.width middle⟩) (hspelling : l.spelling = String.ofList middle) :
    l.SpelledIn (String.ofList (before ++ (middle ++ after))) := by
  rw [SpelledIn, hspan, hspelling, Span.bytes, List.extract_eq_take_drop, Nat.add_sub_cancel_left, ← Text.length_bytes_ofList,
    ← Text.length_bytes_ofList]
  simp only [Text.bytes_ofList, List.flatMap_append, List.drop_left, List.take_left]

/-- The lexemes of the end of a text are spelled as the text is. -/
theorem spelled_scan (before cs : List Char) :
    ∀ l ∈ scan (Text.width before) cs, l.SpelledIn (String.ofList (before ++ cs)) := by
  generalize hplace : Text.width before = place
  -- what was cut off joins the part of the text before
  fun_induction scan place cs generalizing before with
  | case1 => exact List.forall_mem_nil _
  | case2 place c rest _ ih =>
    subst place
    simpa using ih (before ++ [c]) (Text.width_append before [c])
  | case3 place c rest _ _ word ih =>
    subst place
    have hrest : c :: rest = word ++ rest.dropWhile isWordPart := by rw [List.cons_append, List.takeWhile_append_dropWhile]
    rw [hrest]
    refine List.forall_mem_cons.2 ⟨Lexeme.spelledIn_between before word _ rfl (Token.spelling_ofWord word), ?_⟩
    simpa using ih (before ++ word) (Text.width_append before word)
  | case4 place c rest _ _ span t hsymbol ih =>
    subst place
    refine List.forall_mem_cons.2 ⟨Lexeme.spelledIn_between before [c] rest rfl (Token.spelling_of_symbol? hsymbol), ?_⟩
    simpa using ih (before ++ [c]) (Text.width_append before [c])
  | case5 place c rest _ _ span _ ih =>
    subst place
    refine List.forall_mem_cons.2 ⟨Lexeme.spelledIn_between before [c] rest rfl rfl, ?_⟩
    simpa using ih (before ++ [c]) (Text.width_append before [c])

/-- Every lexeme of a text is spelled as the text is in its stretch. -/
theorem spelled_lexemes (text : String) : ∀ l ∈ lexemes text, l.SpelledIn text := by
  have h := spelled_scan [] text.toList
  rwa [List.nil_append, String.ofList_toList] at h

/-! ## The order of lexemes -/

/-- Lexemes start where the text starts or later, and do not end before they start. -/
theorem place_le_scan (place : Nat) (cs : List Char) : ∀ l ∈ scan place cs, place ≤ l.span.start ∧ l.span.start ≤ l.span.stop := by
  fun_induction scan place cs with
  | case1 => exact List.forall_mem_nil _
  | case2 place c rest _ ih => exact fun l hl => ⟨Nat.le_of_add_right_le (ih l hl).1, (ih l hl).2⟩
  | case3 place c rest _ _ word ih =>
    refine List.forall_mem_cons.2 ⟨⟨Nat.le_refl _, Nat.le_add_right _ _⟩, fun l hl => ?_⟩
    exact ⟨Nat.le_of_add_right_le (ih l hl).1, (ih l hl).2⟩
  | case4 place c rest _ _ span t _ ih | case5 place c rest _ _ span _ ih =>
    refine List.forall_mem_cons.2 ⟨⟨Nat.le_refl _, Nat.le_add_right _ _⟩, fun l hl => ?_⟩
    exact ⟨Nat.le_of_add_right_le (ih l hl).1, (ih l hl).2⟩

/-- Of two lexemes the first ends before the second starts. -/
theorem ordered_scan (place : Nat) (cs : List Char) : (scan place cs).Pairwise fun l m => l.span.stop ≤ m.span.start := by
  fun_induction scan place cs with
  | case1 => exact .nil
  | case2 _ _ _ _ ih => exact ih
  | case3 place c rest _ _ word ih => exact .cons (fun m hm => (place_le_scan _ _ m hm).1) ih
  | case4 place c rest _ _ span t _ ih => exact .cons (fun m hm => (place_le_scan _ _ m hm).1) ih
  | case5 place c rest _ _ span _ ih => exact .cons (fun m hm => (place_le_scan _ _ m hm).1) ih

/-- Lexemes stand in the order of the text and do not overlap. -/
theorem ordered_lexemes (text : String) : (lexemes text).Pairwise fun l m => l.span.stop ≤ m.span.start :=
  ordered_scan 0 text.toList

/-! ## Words -/

/-- Characters that can be cut off as one word. -/
def IsRun (cs : List Char) : Prop := cs.head?.any isWordStart = true ∧ cs.all isWordPart = true

/-- A text that is one word other than `internal`. -/
def IsWord (s : String) : Prop := IsRun s.toList ∧ s ≠ "internal"

instance : DecidablePred IsRun := fun cs => inferInstanceAs (Decidable (cs.head?.any isWordStart = true ∧ cs.all isWordPart = true))

instance : DecidablePred IsWord := fun s => inferInstanceAs (Decidable (IsRun s.toList ∧ s ≠ "internal"))

/-- No word goes on here. -/
def EndsWord (cs : List Char) : Prop := ∀ c ∈ cs.head?, isWordPart c = false

/-- What starts a word is no blank. -/
theorem isSpace_of_isWordStart {c : Char} (h : isWordStart c = true) : isSpace c = false := by
  by_contra hspace
  simp only [isSpace, Bool.or_eq_true, decide_eq_true_eq, Bool.not_eq_false] at hspace
  rcases hspace with ((rfl | rfl) | rfl) | rfl <;> exact absurd h (by decide)

/-- What starts a word may go on in one. -/
theorem isWordPart_of_isWordStart {c : Char} (h : isWordStart c = true) : isWordPart c = true := by
  rw [isWordPart, h]
  rfl

/-- A word goes on as long as it can. -/
theorem isRun_takeWhile {c : Char} (h : isWordStart c = true) (cs : List Char) : IsRun (c :: cs.takeWhile isWordPart) := by
  refine ⟨h, List.all_cons.trans ?_⟩
  rw [isWordPart_of_isWordStart h, List.all_takeWhile]
  rfl

/-- The word of a token is one word. -/
theorem isWord_of_ofWord {cs : List Char} (h : IsRun cs) {s : String} (hs : Token.ofWord cs = .word s) : IsWord s := by
  unfold Token.ofWord at hs
  split at hs
  · cases hs
  · rename_i hne
    obtain rfl := Token.word.inj hs
    refine ⟨by rwa [String.toList_ofList], fun hinternal => hne ?_⟩
    rw [← String.toList_ofList (l := cs), hinternal]
    rfl

/-- A word that is no keyword is the token of that word. -/
theorem IsWord.ofWord {s : String} (h : IsWord s) : Token.ofWord s.toList = .word s := by
  have hne : s.toList ≠ ['i', 'n', 't', 'e', 'r', 'n', 'a', 'l'] := fun hs => h.2 (String.toList_inj.1 hs)
  rw [Token.ofWord, if_neg hne, String.ofList_toList]

/-- Every word that a text is cut into is one. -/
theorem isWord_of_mem_scan {place : Nat} {cs : List Char} {s : String} {span : Span} (h : .token (.word s) span ∈ scan place cs) :
    IsWord s := by
  fun_induction scan place cs with
  | case1 => cases h
  | case2 _ _ _ _ ih => exact ih h
  | case3 place c rest _ hstart word ih =>
    rcases List.mem_cons.1 h with h | h
    · exact isWord_of_ofWord (isRun_takeWhile hstart rest) (Lexeme.token.inj h).1.symm
    · exact ih h
  | case4 place c rest _ _ span t hsymbol ih =>
    rcases List.mem_cons.1 h with h | h
    · exact absurd (Lexeme.token.inj h).1.symm ((ne_word_of_symbol? hsymbol).2 s)
    · exact ih h
  | case5 place c rest _ _ span _ ih =>
    rcases List.mem_cons.1 h with h | h
    · cases h
    · exact ih h

/-! ## Texts without stray characters -/

/-- Characters that are cut into tokens alone, wherever they stand. -/
def Lexes (cs : List Char) (ts : List Token) : Prop :=
  ∀ place, (tokensOf (scan place cs)).map (·.1) = ts ∧ straysOf (scan place cs) = []

namespace Lexes

variable {cs : List Char} {ts : List Token}

theorem nil : Lexes [] [] := fun place => by
  rw [scan]
  exact ⟨rfl, rfl⟩

/-- Characters from which a token is cut off. -/
theorem of_scan {before : List Char} {t : Token} (h : Lexes cs ts)
    (hscan : ∀ place, ∃ span : Span, scan place before = .token t span :: scan span.stop cs) : Lexes before (t :: ts) := by
  intro place
  obtain ⟨span, hspan⟩ := hscan place
  rw [hspan]
  exact ⟨congrArg (t :: ·) (h span.stop).1, (h span.stop).2⟩

/-- A blank adds no token. -/
theorem space {c : Char} (hc : isSpace c = true) (h : Lexes cs ts) : Lexes (c :: cs) ts := fun place => by
  rw [scan, if_pos hc]
  exact h _

/-- A symbol adds its token, whatever follows. -/
theorem symbol {c : Char} {t : Token} (hc : symbol? c = some t) (h : Lexes cs ts) : Lexes (c :: cs) (t :: ts) := by
  have hother : isSpace c = false ∧ isWordStart c = false := by
    unfold symbol? at hc
    split at hc
    case h_6 => cases hc
    all_goals exact ⟨by decide, by decide⟩
  refine h.of_scan fun place => ⟨⟨place, place + c.utf8Size⟩, ?_⟩
  rw [scan, hother.1, hother.2, hc]
  rfl

/-- A word is cut off as a whole if no word goes on after it. -/
theorem run {w : List Char} (hw : IsRun w) (hcs : EndsWord cs) (h : Lexes cs ts) : Lexes (w ++ cs) (Token.ofWord w :: ts) := by
  obtain ⟨hstart, hparts⟩ := hw
  cases w with
  | nil => cases hstart
  | cons c rest =>
    have hstart : isWordStart c = true := hstart
    have hrest : ∀ d ∈ rest, isWordPart d = true := fun d hd => List.all_eq_true.1 hparts d (List.mem_cons_of_mem c hd)
    have hend : cs.takeWhile isWordPart = [] ∧ cs.dropWhile isWordPart = cs := by
      cases cs with
      | nil => exact ⟨rfl, rfl⟩
      | cons d cs => simp [hcs d rfl]
    refine h.of_scan fun place => ⟨⟨place, place + Text.width (c :: rest)⟩, ?_⟩
    rw [List.cons_append, scan, isSpace_of_isWordStart hstart, hstart, List.takeWhile_append_of_pos hrest,
      List.dropWhile_append_of_pos hrest, hend.1, hend.2, List.append_nil]
    rfl

/-- A word adds its token, if no other word goes on right after it. -/
theorem word {s : String} (hs : IsWord s) (hcs : EndsWord cs) (h : Lexes cs ts) : Lexes (s.toList ++ cs) (.word s :: ts) :=
  hs.ofWord ▸ h.run hs.1 hcs

end Lexes

end TypeText

end PatchGraph
