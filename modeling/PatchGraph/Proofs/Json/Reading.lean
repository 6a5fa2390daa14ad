import PatchGraph.Json.Decode
import PatchGraph.Proofs.Json.Written

/-!
# Reading what is written

The reader reads every text of a JSON value to the end, whatever blanks it has, and what it finds depends on the tokens alone
(`IsTextOf.decode_eq`). The statement about a value (`Reads`) leaves open which tokens follow it; the fuel it needs is bounded by the
number of its tokens.
-/

namespace PatchGraph.Json

/-! ## Blanks -/

namespace Spaced

variable {t cs : List Char} {ts : List (List Char)} {c : Char}

/-- Blanks at the start of a text are skipped. -/
theorem skipBlanks_append {blanks : List Char} (h : blanks.all isBlank = true) (cs : List Char) :
    skipBlanks (blanks ++ cs) = skipBlanks cs :=
  List.dropWhile_append_of_pos (List.all_eq_true.1 h)

/-- The blanks in front of a token are skipped. -/
theorem skipBlanks_token (h : Spaced ((c :: t) :: ts) cs) (hc : isBlank c = false) :
    ∃ rest, skipBlanks cs = c :: (t ++ rest) ∧ Spaced ts rest := by
  cases h with
  | @token blanks _ rest _ hblanks hrest =>
    refine ⟨rest, ?_, hrest⟩
    rw [List.append_assoc, skipBlanks_append hblanks, skipBlanks, List.cons_append, List.dropWhile_cons_of_neg (by simp [hc])]

/-- The blanks at the end of a text are skipped. -/
theorem skipBlanks_done (h : Spaced [] cs) : skipBlanks cs = [] := by
  cases h with
  | done hblanks =>
    have hskip := skipBlanks_append hblanks []
    rwa [List.append_nil] at hskip

/-- A text has at least as many characters as it has tokens. -/
theorem length_le (h : Spaced ts cs) (hne : ∀ t ∈ ts, t ≠ []) : ts.length ≤ cs.length := by
  induction h with
  | done _ => exact Nat.zero_le _
  | @token blanks t rest ts _ _ ih =>
    have hlength := ih fun u hu => hne u (List.mem_cons_of_mem _ hu)
    have hpos : 0 < t.length := List.length_pos_iff.2 (hne t List.mem_cons_self)
    simp only [List.length_cons, List.length_append]
    omega

end Spaced

/-! ## Numbers -/

/-- No number goes on here. -/
def Ends (cs : List Char) : Prop := ∀ c, cs.head? = some c → isDigit c = false ∧ c ≠ '.' ∧ c ≠ 'e' ∧ c ≠ 'E'

/-- The digits at the start of a text are taken up to the first character that is none. -/
theorem Digits.takeWhile_append (d : Digits) {rest : List Char} (hrest : ∀ c, rest.head? = some c → isDigit c = false) :
    (d.chars ++ rest).takeWhile isDigit = d.chars ∧ (d.chars ++ rest).dropWhile isDigit = rest := by
  rw [List.takeWhile_append_of_pos (List.all_eq_true.1 d.digits), List.dropWhile_append_of_pos (List.all_eq_true.1 d.digits)]
  cases rest with
  | nil => simp
  | cons c rest => simp [hrest c rfl]

/-- Digits start with a digit. -/
theorem Digits.exists_cons (d : Digits) : ∃ c cs, d.chars = c :: cs ∧ isDigit c = true := by
  obtain ⟨c, cs, h⟩ := List.exists_cons_of_ne_nil d.nonempty
  refine ⟨c, cs, h, List.all_eq_true.1 d.digits c ?_⟩
  rw [h]
  exact List.mem_cons_self

/-- The power of ten of an exponent. -/
def WrittenExponent.value (e : WrittenExponent) : Int :=
  if e.sign = some true then -(digitsValue e.digits.chars : Int) else digitsValue e.digits.chars

/-- What is read from a number. -/
def WrittenNumber.numeral (n : WrittenNumber) : Numeral where
  negative := n.negative
  whole := n.whole.chars
  fraction := n.fraction.elim [] Digits.chars
  exponent := n.exponent.map WrittenExponent.value

/-- A digit is none of the other characters. -/
theorem ne_of_isDigit {c d : Char} (hc : isDigit c = true) (hd : isDigit d = false) : c ≠ d := by
  rintro rfl
  cases hc.symm.trans hd

namespace Reader

/-- The exponent of a number, after its mark and its sign. -/
def signedExponent (n : Numeral) (negative : Bool) (ds : List Char) : Found Numeral :=
  if (ds.takeWhile isDigit).isEmpty then digitExpected ds
  else
    let e : Int := digitsValue (ds.takeWhile isDigit)
    .value { n with exponent := some (if negative then -e else e) } (ds.dropWhile isDigit)

/-- The digits of an exponent are read to where they end. -/
theorem signedExponent_digits (n : Numeral) (negative : Bool) (d : Digits) {rest : List Char} (hrest : Ends rest) :
    signedExponent n negative (d.chars ++ rest)
      = .value { n with exponent := some (if negative then -(digitsValue d.chars : Int) else digitsValue d.chars) } rest := by
  obtain ⟨htake, hdrop⟩ := d.takeWhile_append fun c hc => (hrest c hc).1
  rw [signedExponent, htake, hdrop]
  simp [d.nonempty]

/-- An exponent without a sign is positive. -/
theorem exponent_unsigned (n : Numeral) {c : Char} (hc : isDigit c = true) (cs : List Char) :
    exponent n (c :: cs) = signedExponent n false (c :: cs) := by
  have hplus : c ≠ '+' := ne_of_isDigit hc (by decide)
  have hminus : c ≠ '-' := ne_of_isDigit hc (by decide)
  simp [exponent, signedExponent, hplus, hminus]

/-- A written exponent is read, with its mark and its sign. -/
theorem optionalExponent_written (n : Numeral) (e : WrittenExponent) {rest : List Char} (hrest : Ends rest) :
    optionalExponent n (e.chars ++ rest) = .value { n with exponent := some e.value } rest := by
  rcases e with ⟨capital, sign, digits⟩
  have hmark : optionalExponent n ((WrittenExponent.mk capital sign digits).chars ++ rest)
      = exponent n ((sign.toList.map fun minus => if minus then '-' else '+') ++ digits.chars ++ rest) := by
    cases capital <;> simp [WrittenExponent.chars, optionalExponent]
  rw [hmark]
  cases sign with
  | none =>
    obtain ⟨c, cs, hcons, hc⟩ := digits.exists_cons
    have hunsigned := exponent_unsigned n hc (cs ++ rest)
    rw [← List.cons_append, ← hcons, signedExponent_digits n false digits hrest] at hunsigned
    exact hunsigned
  | some minus => cases minus <;> exact signedExponent_digits n _ digits hrest

/-- Where a number ends there is no exponent. -/
theorem optionalExponent_ends (n : Numeral) {rest : List Char} (hrest : Ends rest) : optionalExponent n rest = .value n rest := by
  unfold optionalExponent
  split
  · exact absurd rfl (hrest _ rfl).2.2.1
  · exact absurd rfl (hrest _ rfl).2.2.2
  · rfl

variable {negative : Bool} {whole fraction rest : List Char}

/-- An exponent is read if it is written, and is zero if it is not. -/
theorem optionalExponent_elim (e : Option WrittenExponent) (hrest : Ends rest) :
    optionalExponent { negative, whole, fraction } (e.elim [] WrittenExponent.chars ++ rest)
      = .value { negative, whole, fraction, exponent := e.map WrittenExponent.value } rest := by
  cases e with
  | none => exact optionalExponent_ends _ hrest
  | some e => exact optionalExponent_written _ e hrest

/-- What may stand behind the digits of a number is no digit. -/
theorem not_isDigit_exponent (e : Option WrittenExponent) (hrest : Ends rest) :
    ∀ c, (e.elim [] WrittenExponent.chars ++ rest).head? = some c → isDigit c = false ∧ c ≠ '.' := by
  intro c hc
  cases e with
  | none => exact ⟨(hrest c hc).1, (hrest c hc).2.1⟩
  | some e =>
    have hmark : c = if e.capital then 'E' else 'e' := (Option.some.inj hc).symm
    rw [hmark]
    cases e.capital <;> decide

/-- What follows the whole part of a number is read as it is written: the fraction, if there is one, and the exponent. -/
theorem afterWhole_written (fraction : Option Digits) (e : Option WrittenExponent) (hrest : Ends rest) :
    afterWhole { negative, whole } ((fraction.elim [] fun d => '.' :: d.chars) ++ (e.elim [] WrittenExponent.chars ++ rest))
      = .value { negative, whole, fraction := fraction.elim [] Digits.chars, exponent := e.map WrittenExponent.value } rest := by
  have hends := not_isDigit_exponent e hrest
  cases fraction with
  | none =>
    have hno : afterWhole { negative, whole } (e.elim [] WrittenExponent.chars ++ rest)
        = optionalExponent { negative, whole } (e.elim [] WrittenExponent.chars ++ rest) := by
      unfold afterWhole
      split
      · rename_i heq
        exact absurd rfl (hends '.' (by rw [heq]; rfl)).2
      · rfl
    exact hno.trans (optionalExponent_elim e hrest)
  | some d =>
    obtain ⟨htake, hdrop⟩ := d.takeWhile_append fun c hc => (hends c hc).1
    simp only [Option.elim_some, List.cons_append, afterWhole, htake, hdrop, List.isEmpty_iff, d.nonempty, if_false]
    exact optionalExponent_elim e hrest

/-- The whole part of a number is not continued by what follows it. -/
theorem not_isDigit_fraction (fraction : Option Digits) (e : Option WrittenExponent) (hrest : Ends rest) :
    ∀ c, ((fraction.elim [] fun d => '.' :: d.chars) ++ (e.elim [] WrittenExponent.chars ++ rest)).head? = some c →
      isDigit c = false := by
  intro c hc
  cases fraction with
  | none => exact (not_isDigit_exponent e hrest c hc).1
  | some d =>
    obtain rfl := Option.some.inj hc
    decide

/-- A number is read up to where it ends. -/
theorem unsigned_written (n : WrittenNumber) (hrest : Ends rest) :
    unsigned n.negative (n.whole.chars ++ ((n.fraction.elim [] fun d => '.' :: d.chars)
      ++ (n.exponent.elim [] WrittenExponent.chars ++ rest))) = .value n.numeral rest := by
  have hends := not_isDigit_fraction n.fraction n.exponent hrest
  have hafter : afterWhole { negative := n.negative, whole := n.whole.chars } _ = .value n.numeral rest :=
    afterWhole_written n.fraction n.exponent hrest
  obtain ⟨htake, hdrop⟩ := n.whole.takeWhile_append hends
  generalize (n.fraction.elim [] fun d => '.' :: d.chars) ++ (n.exponent.elim [] WrittenExponent.chars ++ rest) = tail
    at hends hafter htake hdrop ⊢
  by_cases hzero : n.whole.chars.head? = some '0'
  · rw [n.unpadded hzero] at hafter ⊢
    cases tail with
    | nil => exact hafter
    | cons c tail => simpa only [List.cons_append, List.nil_append, unsigned, hends c rfl, Bool.false_eq_true, if_false] using hafter
  · have hunsigned : unsigned n.negative (n.whole.chars ++ tail)
        = afterWhole { negative := n.negative, whole := n.whole.chars } tail := by
      unfold unsigned
      split
      · rename_i heq
        obtain ⟨c, cs, hcons, -⟩ := n.whole.exists_cons
        rw [hcons] at heq hzero
        exact absurd (congrArg List.head? heq) hzero
      · simp only [htake, hdrop, List.isEmpty_iff, n.whole.nonempty, if_false]
    exact hunsigned.trans hafter

/-! ## Strings -/

theorem hexValue_lt {c : Char} {n : Nat} (h : hexValue c = some n) : n < 16 := by
  have hle : ∀ d : Char, c ≤ d → c.toNat ≤ d.toNat := fun _ hd => hd
  have hdigit := hle '9'
  have hsmall := hle 'f'
  have hcapital := hle 'F'
  simp only [hexValue, Char.reduceToNat] at h hdigit hsmall hcapital
  grind

/-- Four hexadecimal digits are read as the code unit they stand for. -/
theorem hexUnit_digits (a b c d : HexDigit) (rest : List Char) :
    hexUnit (a.char :: b.char :: c.char :: d.char :: rest)
      = .ok (((a.value * 16 + b.value) * 16 + c.value) * 16 + d.value, rest) := by
  simp only [hexUnit, a.hex, b.hex, c.hex, d.hex]

/-- A character that needs no escape stands for itself. -/
theorem piece_plain {c : Char} (free : c ≠ '"' ∧ c ≠ '\\' ∧ 0x20 ≤ c.toNat) (rest : List Char) :
    piece (c :: rest) = (.char c, rest) := by
  obtain ⟨hquote, hbackslash, hcode⟩ := free
  simp [piece, Nat.not_lt.2 hcode]

/-- An escaped mark stands for its meaning. -/
theorem piece_mark (m : Mark) (rest : List Char) : piece ('\\' :: m.char :: rest) = (.char m.meaning, rest) := by
  cases m <;> rfl

theorem toNat_ofNat_of_isValidChar {n : Nat} (h : n.isValidChar) : (Char.ofNat n).toNat = n := by
  rw [Char.ofNat, dif_pos h]
  rfl

/-- The character of a surrogate pair has the two halves as its code units. -/
theorem utf16_pair {high low : Nat} (hhigh : 0xd800 ≤ high ∧ high < 0xdc00) (hlow : 0xdc00 ≤ low ∧ low ≤ 0xdfff) :
    utf16 (Char.ofNat ((high - 0xd800) * 0x400 + (low - 0xdc00) + 0x10000)) = [high, low] := by
  generalize hcode : (high - 0xd800) * 0x400 + (low - 0xdc00) + 0x10000 = code
  have hvalid : code.isValidChar := by
    refine .inr ⟨?_, ?_⟩ <;> omega
  have hfirst : 0xd800 + (code - 0x10000) / 0x400 = high := by omega
  have hsecond : 0xdc00 + (code - 0x10000) % 0x400 = low := by omega
  rw [utf16, toNat_ofNat_of_isValidChar hvalid, if_neg (by omega), hfirst, hsecond]

/-- A character outside of the surrogates that fits one code unit is that unit. -/
theorem utf16_unit {unit : Nat} (h : unit < 0xd800 ∨ 0xdfff < unit) (hunit : unit < 0x10000) : utf16 (Char.ofNat unit) = [unit] := by
  have hvalid : unit.isValidChar := by
    rcases h with h | h
    · exact .inl (by omega)
    · exact .inr ⟨h, by omega⟩
  rw [utf16, toNat_ofNat_of_isValidChar hvalid, if_pos hunit]

/-- Whether the pieces after the high half of a surrogate pair start with the low half does not depend on what follows the string. -/
theorem lowSurrogate_spelled (high : Nat) (s : Spelling) :
    (∃ f, ∀ rest, lowSurrogate high (s.inner ++ '"' :: rest) = .error f)
      ∨ ∃ low c s', s.units = low :: Spelling.units s' ∧ s'.length < s.length ∧ (0xdc00 ≤ low ∧ low ≤ 0xdfff)
        ∧ c = Char.ofNat ((high - 0xd800) * 0x400 + (low - 0xdc00) + 0x10000)
        ∧ ∀ rest, lowSurrogate high (s.inner ++ '"' :: rest) = .ok (c, Spelling.inner s' ++ '"' :: rest) := by
  cases s with
  | nil => exact .inl ⟨_, fun rest => rfl⟩
  | cons p s =>
    cases p with
    | plain c free =>
      refine .inl ⟨.unfinishedSurrogate, fun rest => ?_⟩
      simp [Spelling.inner, Piece.chars, lowSurrogate, free.2.1]
    | mark m => cases m <;> exact .inl ⟨_, fun rest => rfl⟩
    | unit a b c d =>
      generalize hlow : ((a.value * 16 + b.value) * 16 + c.value) * 16 + d.value = low
      have hread : ∀ rest, lowSurrogate high (Spelling.inner (.unit a b c d :: s) ++ '"' :: rest)
          = if low < 0xdc00 ∨ 0xdfff < low then .error .loneSurrogate
            else .ok (Char.ofNat ((high - 0xd800) * 0x400 + (low - 0xdc00) + 0x10000), Spelling.inner s ++ '"' :: rest) := by
        intro rest
        rw [← hlow]
        show (hexUnit (a.char :: b.char :: c.char :: d.char :: _) >>= _) = _
        rw [hexUnit_digits]
        rfl
      by_cases hrange : low < 0xdc00 ∨ 0xdfff < low
      · exact .inl ⟨_, fun rest => (hread rest).trans (if_pos hrange)⟩
      · refine .inr ⟨low, _, s, ?_, Nat.lt_succ_self _, by omega, rfl, fun rest => (hread rest).trans (if_neg hrange)⟩
        simp [Spelling.units, Piece.units, hlow]

/-- One step through a string takes one piece or two, and does not depend on what follows the string. -/
theorem piece_spelled (p : Json.Piece) (s : Spelling) :
    ∃ s' : Spelling, s'.length ≤ s.length
      ∧ ((∃ c, p.units ++ s.units = utf16 c ++ s'.units
            ∧ ∀ rest, piece (p.chars ++ (s.inner ++ '"' :: rest)) = (.char c, s'.inner ++ '"' :: rest))
        ∨ ∃ f, ∀ rest, piece (p.chars ++ (s.inner ++ '"' :: rest)) = (.unpaired f, s'.inner ++ '"' :: rest)) := by
  cases p with
  | plain c free => exact ⟨s, Nat.le_refl _, .inl ⟨c, rfl, fun rest => piece_plain free _⟩⟩
  | mark m => exact ⟨s, Nat.le_refl _, .inl ⟨m.meaning, rfl, fun rest => piece_mark m _⟩⟩
  | unit a b c d =>
    generalize hunit : ((a.value * 16 + b.value) * 16 + c.value) * 16 + d.value = unit
    have hread : ∀ rest, piece (Piece.chars (.unit a b c d) ++ (s.inner ++ '"' :: rest))
        = unitEscape (a.char :: b.char :: c.char :: d.char :: (s.inner ++ '"' :: rest)) := fun _ => rfl
    simp only [unitEscape, hexUnit_digits, hunit] at hread
    have hunits : Piece.units (.unit a b c d) = [unit] := by rw [Piece.units, hunit]
    rw [hunits]
    by_cases hpaired : unit < 0xd800 ∨ 0xdfff < unit
    · have hlt : unit < 0x10000 := by
        have := hexValue_lt a.hex
        have := hexValue_lt b.hex
        have := hexValue_lt c.hex
        have := hexValue_lt d.hex
        omega
      refine ⟨s, Nat.le_refl _, .inl ⟨Char.ofNat unit, ?_, fun rest => (hread rest).trans (if_pos hpaired)⟩⟩
      rw [utf16_unit hpaired hlt]
    simp only [hpaired, if_false] at hread
    by_cases hlow : 0xdc00 ≤ unit
    · exact ⟨s, Nat.le_refl _, .inr ⟨_, fun rest => (hread rest).trans (if_pos hlow)⟩⟩
    simp only [hlow, if_false] at hread
    rcases lowSurrogate_spelled unit s with ⟨f, herror⟩ | ⟨low, char, s', hs, hlength, hrange, hchar, hok⟩
    · refine ⟨s, Nat.le_refl _, .inr ⟨f, fun rest => ?_⟩⟩
      rw [hread, herror]
    · refine ⟨s', Nat.le_of_lt hlength, .inl ⟨char, ?_, fun rest => ?_⟩⟩
      · rw [hchar, utf16_pair (by omega) hrange, hs]
        rfl
      · rw [hread, hok]

/-- A string is read up to its closing quote, and what is read does not depend on what follows it. If it has a text, the code units of
the text are those of the pieces. -/
theorem stringRest_spelled (s : Spelling) (read : List Char) (pending : Option Fault) :
    ∃ q : Quoted, (∀ fuel rest, s.length < fuel → stringRest fuel read pending (s.inner ++ '"' :: rest) = (q, rest))
      ∧ (∀ d, q ≠ .broken d)
      ∧ ∀ text, q = .text text → pending = none ∧ text.toList.flatMap utf16 = read.reverse.flatMap utf16 ++ s.units := by
  induction hn : s.length using Nat.strongRecOn generalizing s read pending with
  | _ n ih =>
    cases s with
    | nil =>
      refine ⟨(pending.map Quoted.unpaired).getD (.text (String.ofList read.reverse)), fun fuel rest hfuel => ?_, fun d => ?_,
        fun text htext => ?_⟩
      · obtain ⟨fuel, rfl⟩ : ∃ k, fuel = k + 1 := ⟨fuel - 1, by omega⟩
        rfl
      · cases pending <;> exact Quoted.noConfusion
      · cases pending with
        | some f => cases htext
        | none =>
          obtain rfl := Quoted.text.inj htext
          exact ⟨rfl, by simp [Spelling.units]⟩
    | cons p s =>
      obtain ⟨s', hlength, hpiece⟩ := piece_spelled p s
      have hlt : s'.length < n := by
        rw [← hn, List.length_cons]
        omega
      rcases hpiece with ⟨c, hunits, hpiece⟩ | ⟨f, hpiece⟩
      · obtain ⟨q, hread, hbroken, htext⟩ := ih _ hlt s' (c :: read) pending rfl
        refine ⟨q, fun fuel rest hfuel => ?_, hbroken, fun text h => ?_⟩
        · obtain ⟨fuel, rfl⟩ : ∃ k, fuel = k + 1 := ⟨fuel - 1, by omega⟩
          rw [stringRest, Spelling.inner_cons, List.append_assoc, hpiece rest]
          exact hread fuel rest (by omega)
        · obtain ⟨hnone, htext⟩ := htext text h
          refine ⟨hnone, ?_⟩
          rw [htext, Spelling.units_cons, hunits]
          simp
      · obtain ⟨q, hread, hbroken, htext⟩ := ih _ hlt s' read (pending.or (some f)) rfl
        refine ⟨q, fun fuel rest hfuel => ?_, hbroken, fun text h => ?_⟩
        · obtain ⟨fuel, rfl⟩ : ∃ k, fuel = k + 1 := ⟨fuel - 1, by omega⟩
          rw [stringRest, Spelling.inner_cons, List.append_assoc, hpiece rest]
          exact hread fuel rest (by omega)
        · cases pending <;> cases (htext text h).1

end Reader

namespace Spelling

/-- What is read from a string. -/
def quoted (s : Spelling) : Quoted := (Reader.string (s.inner ++ ['"'])).1

/-- Each piece of a string takes at least one character, so there is fuel for all pieces. -/
theorem length_le_inner (s : Spelling) : s.length ≤ s.inner.length := by
  induction s with
  | nil => exact Nat.le_refl _
  | cons p s ih =>
    have hpiece : 1 ≤ p.chars.length := by cases p <;> simp [Piece.chars]
    rw [inner_cons, List.length_cons, List.length_append]
    omega

/-- A string is read up to its closing quote. If it has a text, the code units of the text are those that are written. -/
theorem string_inner (s : Spelling) :
    (∀ rest, Reader.string (s.inner ++ '"' :: rest) = (s.quoted, rest)) ∧ (∀ d, s.quoted ≠ .broken d)
      ∧ ∀ text, s.quoted = .text text → s.units = text.toList.flatMap utf16 := by
  obtain ⟨q, hread, hbroken, htext⟩ := Reader.stringRest_spelled s [] none
  have hlength := s.length_le_inner
  have hstring : ∀ rest, Reader.string (s.inner ++ '"' :: rest) = (q, rest) := fun rest =>
    hread _ rest (by rw [List.length_append]; omega)
  have hq : s.quoted = q := by rw [quoted, hstring]
  rw [hq]
  exact ⟨hstring, hbroken, fun text h => (htext text h).2.symm⟩

end Spelling

/-! ## Values -/

/-- A value that starts with a digit is read as a number. -/
theorem Reader.value_digit {c : Char} {cs tail : List Char} (hc : isDigit c = true) (h : skipBlanks cs = c :: tail) (fuel : Nat) :
    value (fuel + 1) cs = .ofFound .other .number (unsigned false (c :: tail)) := by
  rw [value, h]
  split
  case h_1 heq => cases heq
  case h_9 => simp_all
  all_goals
    rename_i heq
    obtain ⟨rfl, rfl⟩ := List.cons.inj heq
    cases hc

/-- A number is read up to where it ends, whatever it starts with. -/
theorem WrittenNumber.value_chars (n : WrittenNumber) {rest cs : List Char} (hrest : Ends rest)
    (h : skipBlanks cs = n.chars ++ rest) (fuel : Nat) :
    Reader.value (fuel + 1) cs = ⟨.number n.numeral, rest, true⟩ := by
  have hread := Reader.unsigned_written n hrest
  simp only [chars, List.append_assoc] at h
  cases hnegative : n.negative with
  | true =>
    rw [hnegative] at h hread
    rw [Reader.value, h]
    exact congrArg (Reader.Reading.ofFound .other Source.number) hread
  | false =>
    obtain ⟨c, cs, hcons, hc⟩ := n.whole.exists_cons
    rw [hnegative] at h hread
    rw [hcons] at h hread
    rw [Reader.value_digit hc h]
    exact congrArg (Reader.Reading.ofFound .other Source.number) hread

namespace Written

mutual

/-- What is read from a value. -/
def source : Written → Source
  | .null => .null
  | .bool b => .bool b
  | .number n => .number n.numeral
  | .string s => .string s.quoted
  | .array items => .array (itemsSource items) .closed
  | .object members => .object (membersSource members) .closed

/-- What is read from the items of a list. -/
def itemsSource : List Written → List Source
  | [] => []
  | item :: rest => source item :: itemsSource rest

/-- What is read from the members of an object. -/
def membersSource : List (Spelling × Written) → List (Quoted × Source)
  | [] => []
  | (key, value) :: rest => (key.quoted, source value) :: membersSource rest

end

/-- The tokens that may follow a value: none, a comma or a closing bracket. -/
def Delimited (ts : List (List Char)) : Prop := ts = [] ∨ ∃ d us, ts = [d] :: us ∧ (d = ',' ∨ d = ']' ∨ d = '\x7d')

/-- A blank ends a number. -/
theorem ends_of_isBlank {c : Char} (h : isBlank c = true) : isDigit c = false ∧ c ≠ '.' ∧ c ≠ 'e' ∧ c ≠ 'E' := by
  simp only [isBlank, Bool.or_eq_true, decide_eq_true_eq] at h
  rcases h with ((rfl | rfl) | rfl) | rfl <;> decide

/-- No number goes on where a value may end. -/
theorem Delimited.ends {ts : List (List Char)} {cs : List Char} (hts : Delimited ts) (h : Spaced ts cs) : Ends cs := by
  intro c hc
  cases h with
  | done hblanks => exact ends_of_isBlank (List.all_eq_true.1 hblanks c (List.mem_of_head? hc))
  | @token blanks t rest us hblanks hrest =>
    cases blanks with
    | cons b blanks =>
      obtain rfl := Option.some.inj hc
      exact ends_of_isBlank (List.all_eq_true.1 hblanks _ List.mem_cons_self)
    | nil =>
      rcases hts with hts | ⟨d, us, hts, hd⟩
      · cases hts
      · obtain ⟨rfl, rfl⟩ := List.cons.inj hts
        obtain rfl := Option.some.inj hc
        rcases hd with rfl | rfl | rfl <;> decide

/-- A value in a list is followed by a comma or by the end of the list. -/
theorem delimited_items (items : List Written) (ts : List (List Char)) : Delimited (itemsTokens items ++ ts) := by
  cases items with
  | nil => exact .inr ⟨']', ts, by rw [itemsTokens]; rfl, .inr (.inl rfl)⟩
  | cons item rest => exact .inr ⟨',', _, by rw [itemsTokens]; rfl, .inl rfl⟩

/-- A value in an object is followed by a comma or by the end of the object. -/
theorem delimited_members (members : List (Spelling × Written)) (ts : List (List Char)) :
    Delimited (membersTokens members ++ ts) := by
  cases members with
  | nil => exact .inr ⟨'\x7d', ts, by rw [membersTokens]; rfl, .inr (.inr rfl)⟩
  | cons member rest => exact .inr ⟨',', _, by rw [membersTokens]; rfl, .inl rfl⟩

/-- Every value starts with a character that is no blank and closes no bracket. -/
theorem tokens_cons (w : Written) :
    ∃ c t ts, w.tokens = (c :: t) :: ts ∧ isBlank c = false ∧ c ≠ ']' := by
  cases w with
  | null => exact ⟨_, _, _, by rw [tokens], by decide, by decide⟩
  | bool b => cases b <;> exact ⟨_, _, _, by rw [tokens], by decide, by decide⟩
  | number n =>
    obtain ⟨c, cs, hcons, hc⟩ := n.whole.exists_cons
    rw [tokens, WrittenNumber.chars, hcons]
    cases n.negative with
    | true => exact ⟨'-', _, _, rfl, by decide, by decide⟩
    | false =>
      have hne : ∀ d, isDigit d = false → c ≠ d := fun d => ne_of_isDigit hc
      refine ⟨c, _, _, rfl, ?_, hne ']' (by decide)⟩
      simp [isBlank, hne ' ' (by decide), hne '\n' (by decide), hne '\t' (by decide), hne '\r' (by decide)]
  | string s => exact ⟨_, _, _, by rw [tokens, Spelling.chars], by decide, by decide⟩
  | array items => cases items <;> exact ⟨_, _, _, by rw [tokens], by decide, by decide⟩
  | object members => cases members <;> exact ⟨_, _, _, by rw [tokens], by decide, by decide⟩

/-- The blanks in front of a value are skipped. -/
theorem start_of_spaced {w : Written} {ts : List (List Char)} {cs : List Char} (h : Spaced (w.tokens ++ ts) cs) :
    ∃ c rest, skipBlanks cs = c :: rest ∧ c ≠ ']' ∧ Spaced (w.tokens ++ ts) (c :: rest) := by
  obtain ⟨c, t, us, htokens, hblank, hclose⟩ := w.tokens_cons
  rw [htokens, List.cons_append] at h ⊢
  obtain ⟨rest, hskip, hrest⟩ := h.skipBlanks_token hblank
  exact ⟨c, t ++ rest, hskip, hclose, .token (List.all_nil (f := isBlank)) hrest⟩

/-- A value is read up to its last token, and the tokens after it are left. -/
def Reads (w : Written) : Prop :=
  ∀ ts cs fuel, Spaced (w.tokens ++ ts) cs → Delimited ts → 3 * w.tokens.length ≤ fuel →
    ∃ rest, Reader.value fuel cs = ⟨w.source, rest, true⟩ ∧ Spaced ts rest

/-- The rest of a list is read up to its closing bracket. -/
def ReadsItems (items : List Written) : Prop :=
  ∀ ts cs fuel, Spaced (itemsTokens items ++ ts) cs → 3 * (itemsTokens items).length ≤ fuel →
    ∃ rest, Reader.items fuel false cs = ⟨itemsSource items, .closed, rest, true⟩ ∧ Spaced ts rest

/-- The rest of an object is read up to its closing brace. -/
def ReadsMembers (members : List (Spelling × Written)) : Prop :=
  ∀ ts cs fuel, Spaced (membersTokens members ++ ts) cs → 3 * (membersTokens members).length ≤ fuel →
    ∃ rest, Reader.members fuel false cs = ⟨membersSource members, .closed, rest, true⟩ ∧ Spaced ts rest

/-- A value of one token is read if the reader takes that token. -/
theorem reads_token {w : Written} {c : Char} {t : List Char} (htokens : w.tokens = [c :: t]) (hc : isBlank c = false)
    (h : ∀ cs rest fuel, skipBlanks cs = c :: (t ++ rest) → Ends rest → Reader.value (fuel + 1) cs = ⟨w.source, rest, true⟩) :
    w.Reads := by
  intro ts cs fuel hspaced hts hfuel
  rw [htokens] at hspaced hfuel
  obtain ⟨rest, hskip, hrest⟩ := hspaced.skipBlanks_token hc
  obtain ⟨fuel, rfl⟩ : ∃ k, fuel = k + 1 := ⟨fuel - 1, by simp only [List.length_singleton] at hfuel; omega⟩
  exact ⟨rest, h cs rest fuel hskip (hts.ends hrest), hrest⟩

theorem reads_null : Reads .null := by
  refine reads_token (by rw [tokens]) (by decide) fun cs rest fuel hskip _ => ?_
  rw [Reader.value, hskip]
  rfl

theorem reads_bool (b : Bool) : Reads (.bool b) := by
  cases b with
  | true =>
    refine reads_token (by rw [tokens]) (by decide) fun cs rest fuel hskip _ => ?_
    rw [Reader.value, hskip]
    rfl
  | false =>
    refine reads_token (by rw [tokens]) (by decide) fun cs rest fuel hskip _ => ?_
    rw [Reader.value, hskip]
    rfl

/-- Numbers are read as they are written, whatever follows them. -/
theorem reads_number (n : WrittenNumber) : Reads (.number n) := by
  obtain ⟨c, t, ts, htokens, hblank, -⟩ := tokens_cons (.number n)
  rw [tokens] at htokens
  obtain ⟨hchars, rfl⟩ := List.cons.inj htokens
  refine reads_token (by rw [tokens, hchars]) hblank fun cs rest fuel hskip hrest => ?_
  rw [n.value_chars hrest (by rw [hskip, hchars, List.cons_append]), source]

/-- Strings are read as they are spelled, whatever follows them. -/
theorem reads_string (s : Spelling) : Reads (.string s) := by
  refine reads_token (by rw [tokens, Spelling.chars]) (by decide) fun cs rest fuel hskip _ => ?_
  obtain ⟨hstring, hbroken, -⟩ := s.string_inner
  rw [List.append_assoc] at hskip
  rw [Reader.value, hskip]
  cases hquoted : s.quoted with
  | broken d => exact absurd hquoted (hbroken d)
  | text _ => simp only [List.singleton_append, hstring, Reader.Reading.ofString, source, hquoted]
  | unpaired _ => simp only [List.singleton_append, hstring, Reader.Reading.ofString, source, hquoted]

variable {w : Written} {items : List Written} {members : List (Spelling × Written)} {key : Spelling} {ts : List (List Char)}
  {cs : List Char} {fuel : Nat}

/-! ### Lists -/

/-- An item is read, and then those after it. -/
theorem Reads.item_eq (hw : w.Reads) (hitems : ReadsItems items) (h : Spaced (w.tokens ++ (itemsTokens items ++ ts)) cs)
    (hfuel : 3 * w.tokens.length + 3 * (itemsTokens items).length < fuel) :
    ∃ rest, Reader.item fuel cs = ⟨w.source :: itemsSource items, .closed, rest, true⟩ ∧ Spaced ts rest := by
  obtain ⟨fuel, rfl⟩ : ∃ k, fuel = k + 1 := ⟨fuel - 1, by omega⟩
  obtain ⟨after, hvalue, hafter⟩ := hw _ _ fuel h (delimited_items items ts) (by omega)
  obtain ⟨rest, hrest, hspaced⟩ := hitems _ _ fuel hafter (by omega)
  refine ⟨rest, ?_, hspaced⟩
  rw [Reader.item, hvalue]
  simp only [hrest, if_true, Reader.Entries.push]

theorem reads_array_nil : Reads (.array []) := by
  intro ts cs fuel h _ hfuel
  rw [tokens] at h hfuel
  simp only [List.length_cons, List.length_nil] at hfuel
  obtain ⟨fuel, rfl⟩ : ∃ k, fuel = k + 2 := ⟨fuel - 2, by omega⟩
  obtain ⟨after, hopen, hafter⟩ := h.skipBlanks_token (by decide)
  obtain ⟨rest, hclose, hrest⟩ := hafter.skipBlanks_token (by decide)
  refine ⟨rest, ?_, hrest⟩
  rw [Reader.value, hopen]
  simp only [List.nil_append, Reader.items, hclose]
  rw [source, itemsSource]

/-- A list is read if its values are. -/
theorem Reads.array (hw : w.Reads) (hitems : ReadsItems items) : Reads (.array (w :: items)) := by
  intro ts cs fuel h _ hfuel
  rw [tokens] at h hfuel
  simp only [List.length_cons, List.length_append] at hfuel
  obtain ⟨fuel, rfl⟩ : ∃ k, fuel = k + 2 := ⟨fuel - 2, by omega⟩
  rw [List.cons_append, List.append_assoc] at h
  obtain ⟨after, hopen, hafter⟩ := h.skipBlanks_token (by decide)
  obtain ⟨c, first, hskip, hc, hfirst⟩ := start_of_spaced hafter
  obtain ⟨rest, hitem, hrest⟩ := hw.item_eq hitems hfirst (by omega : _ < fuel)
  refine ⟨rest, ?_, hrest⟩
  rw [Reader.value, hopen]
  simp only [List.nil_append, Reader.items, hskip, if_true, hitem]
  rw [source, itemsSource]

theorem readsItems_nil : ReadsItems [] := by
  intro ts cs fuel h hfuel
  rw [itemsTokens] at h hfuel
  simp only [List.length_cons, List.length_nil] at hfuel
  obtain ⟨fuel, rfl⟩ : ∃ k, fuel = k + 1 := ⟨fuel - 1, by omega⟩
  obtain ⟨rest, hclose, hrest⟩ := h.skipBlanks_token (by decide)
  refine ⟨rest, ?_, hrest⟩
  rw [Reader.items, hclose]
  simp only [List.nil_append]
  rw [itemsSource]

/-- The rest of a list is read value by value. -/
theorem Reads.cons_items (hw : w.Reads) (hitems : ReadsItems items) : ReadsItems (w :: items) := by
  intro ts cs fuel h hfuel
  rw [itemsTokens] at h hfuel
  simp only [List.length_cons, List.length_append] at hfuel
  obtain ⟨fuel, rfl⟩ : ∃ k, fuel = k + 1 := ⟨fuel - 1, by omega⟩
  rw [List.cons_append, List.append_assoc] at h
  obtain ⟨after, hcomma, hafter⟩ := h.skipBlanks_token (by decide)
  obtain ⟨c, next, hskip, hc, hspaced⟩ := start_of_spaced hafter
  obtain ⟨rest, hitem, hrest⟩ := hw.item_eq hitems hspaced (by omega : _ < fuel)
  refine ⟨rest, ?_, hrest⟩
  have hnext : Reader.items (fuel + 1) false cs = Reader.item fuel (c :: next) := by
    simp only [Reader.items, hcomma, hskip, List.nil_append, Char.reduceEq, imp_self, Bool.false_eq_true, ↓reduceIte]
    split
    case h_1 heq => cases heq
    case h_2 heq => exact absurd (List.cons.inj heq).1 hc
    case h_3 => rfl
  rw [hnext, hitem, itemsSource]

/-! ### Objects -/

/-- A member is read, and then those after it. -/
theorem Reads.member_eq (key : Spelling) (hw : w.Reads) (hmembers : ReadsMembers members)
    (h : Spaced ([':'] :: (w.tokens ++ (membersTokens members ++ ts))) cs)
    (hfuel : 3 * w.tokens.length + 3 * (membersTokens members).length < fuel) :
    ∃ rest, Reader.member fuel ('"' :: (key.inner ++ '"' :: cs))
      = ⟨(key.quoted, w.source) :: membersSource members, .closed, rest, true⟩ ∧ Spaced ts rest := by
  obtain ⟨fuel, rfl⟩ : ∃ k, fuel = k + 1 := ⟨fuel - 1, by omega⟩
  obtain ⟨colon, hcolon, hspaced⟩ := h.skipBlanks_token (by decide)
  obtain ⟨after, hvalue, hafter⟩ := hw _ _ fuel hspaced (delimited_members members ts) (by omega)
  obtain ⟨rest, hrest, hspaced⟩ := hmembers _ _ fuel hafter (by omega)
  obtain ⟨hstring, hbroken, -⟩ := key.string_inner
  refine ⟨rest, ?_, hspaced⟩
  rw [Reader.member, hstring]
  cases hkey : key.quoted with
  | broken d => exact absurd hkey (hbroken d)
  | text s => simp only [hcolon, List.nil_append, hvalue, hrest, if_true, Reader.Entries.push]
  | unpaired f => simp only [hcolon, List.nil_append, hvalue, hrest, if_true, Reader.Entries.push]

theorem reads_object_nil : Reads (.object []) := by
  intro ts cs fuel h _ hfuel
  rw [tokens] at h hfuel
  simp only [List.length_cons, List.length_nil] at hfuel
  obtain ⟨fuel, rfl⟩ : ∃ k, fuel = k + 2 := ⟨fuel - 2, by omega⟩
  obtain ⟨after, hopen, hafter⟩ := h.skipBlanks_token (by decide)
  obtain ⟨rest, hclose, hrest⟩ := hafter.skipBlanks_token (by decide)
  refine ⟨rest, ?_, hrest⟩
  simp [Reader.value, hopen, Reader.members, hclose, source, membersSource]

/-- The key of a member stands behind blanks. -/
theorem key_of_spaced (h : Spaced (key.chars :: ts) cs) :
    ∃ rest, skipBlanks cs = '"' :: (key.inner ++ '"' :: rest) ∧ Spaced ts rest := by
  rw [Spelling.chars] at h
  obtain ⟨rest, hskip, hrest⟩ := h.skipBlanks_token (by decide)
  rw [List.append_assoc] at hskip
  exact ⟨rest, hskip, hrest⟩

/-- An object is read if the values of its members are. -/
theorem Reads.object (hw : w.Reads) (hmembers : ReadsMembers members) : Reads (.object ((key, w) :: members)) := by
  intro ts cs fuel h _ hfuel
  rw [tokens] at h hfuel
  simp only [List.length_cons, List.length_append] at hfuel
  obtain ⟨fuel, rfl⟩ : ∃ k, fuel = k + 2 := ⟨fuel - 2, by omega⟩
  simp only [List.cons_append, List.append_assoc] at h
  obtain ⟨after, hopen, hafter⟩ := h.skipBlanks_token (by decide)
  obtain ⟨colon, hskip, hcolon⟩ := key_of_spaced hafter
  obtain ⟨rest, hmember, hrest⟩ := hw.member_eq key hmembers hcolon (by omega : _ < fuel)
  refine ⟨rest, ?_, hrest⟩
  simp [Reader.value, hopen, Reader.members, hskip, hmember, source, membersSource]

theorem readsMembers_nil : ReadsMembers [] := by
  intro ts cs fuel h hfuel
  rw [membersTokens] at h hfuel
  simp only [List.length_cons, List.length_nil] at hfuel
  obtain ⟨fuel, rfl⟩ : ∃ k, fuel = k + 1 := ⟨fuel - 1, by omega⟩
  obtain ⟨rest, hclose, hrest⟩ := h.skipBlanks_token (by decide)
  refine ⟨rest, ?_, hrest⟩
  simp [Reader.members, hclose, membersSource]

/-- The rest of an object is read member by member. -/
theorem Reads.cons_members (hw : w.Reads) (hmembers : ReadsMembers members) : ReadsMembers ((key, w) :: members) := by
  intro ts cs fuel h hfuel
  rw [membersTokens] at h hfuel
  simp only [List.length_cons, List.length_append] at hfuel
  obtain ⟨fuel, rfl⟩ : ∃ k, fuel = k + 1 := ⟨fuel - 1, by omega⟩
  simp only [List.cons_append, List.append_assoc] at h
  obtain ⟨after, hcomma, hafter⟩ := h.skipBlanks_token (by decide)
  obtain ⟨colon, hskip, hcolon⟩ := key_of_spaced hafter
  obtain ⟨rest, hmember, hrest⟩ := hw.member_eq key hmembers hcolon (by omega : _ < fuel)
  refine ⟨rest, ?_, hrest⟩
  simp [Reader.members, hcomma, hskip, hmember, membersSource]

mutual

/-- Every written value is read, by induction on how it is written. -/
theorem reads : ∀ w : Written, w.Reads
  | .null => reads_null
  | .bool b => reads_bool b
  | .number n => reads_number n
  | .string s => reads_string s
  | .array [] => reads_array_nil
  | .array (item :: rest) => (reads item).array (readsItems rest)
  | .object [] => reads_object_nil
  | .object ((_, value) :: rest) => (reads value).object (readsMembers rest)

/-- Every rest of a list is read. -/
theorem readsItems : ∀ items : List Written, ReadsItems items
  | [] => readsItems_nil
  | item :: rest => (reads item).cons_items (readsItems rest)

/-- Every rest of an object is read. -/
theorem readsMembers : ∀ members : List (Spelling × Written), ReadsMembers members
  | [] => readsMembers_nil
  | (_, value) :: rest => (reads value).cons_members (readsMembers rest)

end

/-! ### Texts -/

mutual

/-- No token is empty. -/
theorem tokens_ne_nil : ∀ w : Written, ∀ t ∈ w.tokens, t ≠ []
  | .null => by simp [tokens]
  | .bool true => by simp [tokens]
  | .bool false => by simp [tokens]
  | .number n => by
    obtain ⟨c, cs, hcons, -⟩ := n.whole.exists_cons
    simp [tokens, WrittenNumber.chars, hcons]
  | .string s => by simp [tokens, Spelling.chars]
  | .array [] => by simp [tokens]
  | .array (item :: rest) => by
    simp only [tokens, List.forall_mem_cons, List.forall_mem_append]
    exact ⟨List.cons_ne_nil _ _, tokens_ne_nil item, itemsTokens_ne_nil rest⟩
  | .object [] => by simp [tokens]
  | .object ((key, value) :: rest) => by
    simp only [tokens, List.forall_mem_cons, List.forall_mem_append]
    exact ⟨List.cons_ne_nil _ _, List.cons_ne_nil _ _, List.cons_ne_nil _ _, tokens_ne_nil value, membersTokens_ne_nil rest⟩

theorem itemsTokens_ne_nil : ∀ items : List Written, ∀ t ∈ itemsTokens items, t ≠ []
  | [] => by simp [itemsTokens]
  | item :: rest => by
    simp only [itemsTokens, List.forall_mem_cons, List.forall_mem_append]
    exact ⟨List.cons_ne_nil _ _, tokens_ne_nil item, itemsTokens_ne_nil rest⟩

theorem membersTokens_ne_nil : ∀ members : List (Spelling × Written), ∀ t ∈ membersTokens members, t ≠ []
  | [] => by simp [membersTokens]
  | (key, value) :: rest => by
    simp only [membersTokens, List.forall_mem_cons, List.forall_mem_append]
    exact ⟨List.cons_ne_nil _ _, List.cons_ne_nil _ _, List.cons_ne_nil _ _, tokens_ne_nil value, membersTokens_ne_nil rest⟩

end

/-- Decoding a text of a value is decoding what is read from the value. -/
theorem IsTextOf.decode_eq {α : Type} {text : String} (h : w.IsTextOf text) (decode : Source → Decoded α) :
    (Document.read text).decode decode = decode w.source := by
  have hlength := h.length_le w.tokens_ne_nil
  have hspaced : Spaced (w.tokens ++ []) text.toList := by rwa [List.append_nil]
  obtain ⟨rest, hvalue, hrest⟩ := w.reads [] text.toList (3 * text.toList.length + 3) hspaced (.inl rfl) (by omega)
  have hread : Document.read text = ⟨w.source, rest⟩ := by rw [Document.read, Reader.start, hvalue]
  rw [hread, Document.decode, hrest.skipBlanks_done]
  cases decode w.source <;> rfl

end Written

end PatchGraph.Json
