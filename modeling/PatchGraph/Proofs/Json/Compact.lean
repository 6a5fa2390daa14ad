import PatchGraph.Proofs.Json.Reading
import PatchGraph.Proofs.Number.Numeral

/-!
# Reading compact texts

The compact text of a JSON value is one of its texts, without any blanks: each character of a string has one spelling in it, and each
numeral is written as it is. So it is read as the value itself (`decode_compact`), provided that its numerals can be read as what they
are.
-/

namespace PatchGraph

namespace Json

/-! ## Strings -/

/-- The digits that are written are read as what they stand for. -/
theorem hexValue_digitChar : ∀ n < 16, Reader.hexValue n.digitChar = some n := by decide

/-- The hexadecimal digit of a number below sixteen. -/
def HexDigit.ofNat (n : Nat) (h : n < 16) : HexDigit := ⟨n.digitChar, n, hexValue_digitChar n h⟩

/-- The piece that a character is written as. -/
def Piece.ofChar (c : Char) : Piece :=
  if hquote : c = '"' then .mark .quote
  else if hbackslash : c = '\\' then .mark .backslash
  else if c = '\x08' then .mark .backspace
  else if c = '\t' then .mark .tab
  else if c = '\n' then .mark .newLine
  else if c = '\x0c' then .mark .formFeed
  else if c = '\r' then .mark .carriageReturn
  else if h : c.toNat < 0x20 then
    .unit (.ofNat 0 (by decide)) (.ofNat 0 (by decide)) (.ofNat (c.toNat / 16) (by omega)) (.ofNat (c.toNat % 16) (by omega))
  else .plain c ⟨hquote, hbackslash, Nat.not_lt.1 h⟩

/-- A character is spelled as it is escaped. -/
theorem Piece.chars_ofChar (c : Char) : (ofChar c).chars = escapeChar c := by
  unfold ofChar escapeChar
  repeat' split
  all_goals rfl

/-- A control character is read from its code unit. -/
theorem piece_control {c : Char} (h : c.toNat < 0x20) (rest : List Char) :
    Reader.piece ('\\' :: 'u' :: '0' :: '0' :: (c.toNat / 16).digitChar :: (c.toNat % 16).digitChar :: rest) = (.char c, rest) := by
  have hzero : Reader.hexValue '0' = some 0 := by decide
  have hunit : ((0 * 16 + 0) * 16 + c.toNat / 16) * 16 + c.toNat % 16 = c.toNat := by omega
  show Reader.unitEscape _ = _
  rw [Reader.unitEscape, Reader.hexUnit, hzero, hexValue_digitChar _ (by omega), hexValue_digitChar _ (by omega)]
  simp only [hunit]
  rw [if_pos (by omega), Char.ofNat_toNat]

/-- A character is read from the piece that it is written as. -/
theorem Piece.piece_ofChar (c : Char) (rest : List Char) : Reader.piece ((ofChar c).chars ++ rest) = (.char c, rest) := by
  unfold ofChar
  split
  case isTrue h => exact h ▸ Reader.piece_mark .quote rest
  case isFalse hquote =>
  split
  case isTrue h => exact h ▸ Reader.piece_mark .backslash rest
  case isFalse hbackslash =>
  split
  case isTrue h => exact h ▸ Reader.piece_mark .backspace rest
  split
  case isTrue h => exact h ▸ Reader.piece_mark .tab rest
  split
  case isTrue h => exact h ▸ Reader.piece_mark .newLine rest
  split
  case isTrue h => exact h ▸ Reader.piece_mark .formFeed rest
  split
  case isTrue h => exact h ▸ Reader.piece_mark .carriageReturn rest
  split
  case isTrue h => exact piece_control h rest
  case isFalse h => exact Reader.piece_plain ⟨hquote, hbackslash, Nat.not_lt.1 h⟩ rest

/-- A string with each character written as one piece. -/
def Spelling.ofString (s : String) : Spelling := s.toList.map Piece.ofChar

/-- A string is spelled as it is written. -/
theorem Spelling.chars_ofString (s : String) : (ofString s).chars = stringChars s := by
  have hinner : (ofString s).inner = s.toList.flatMap escapeChar := by
    simp only [ofString, inner, List.flatMap_map, Piece.chars_ofChar]
  rw [chars, hinner, stringChars, List.cons_append]

/-- The rest of a string is read character by character, up to its closing quote. -/
theorem Reader.stringRest_ofChars (cs read rest : List Char) {fuel : Nat} (hfuel : cs.length < fuel) :
    stringRest fuel read none (Spelling.inner (cs.map Json.Piece.ofChar) ++ '"' :: rest)
      = (.text (String.ofList (read.reverse ++ cs)), rest) := by
  induction cs generalizing fuel read with
  | nil =>
    obtain ⟨fuel, rfl⟩ : ∃ k, fuel = k + 1 := ⟨fuel - 1, by omega⟩
    rw [List.append_nil]
    rfl
  | cons c cs ih =>
    rw [List.length_cons] at hfuel
    obtain ⟨fuel, rfl⟩ : ∃ k, fuel = k + 1 := ⟨fuel - 1, by omega⟩
    rw [stringRest, List.map_cons, Spelling.inner_cons, List.append_assoc, Json.Piece.piece_ofChar]
    simp only
    rw [ih (c :: read) (by omega), List.reverse_cons, List.append_assoc]
    rfl

/-- A string is read back from its spelling. -/
theorem Spelling.quoted_ofString (s : String) : (ofString s).quoted = .text s := by
  have hlength := (ofString s).length_le_inner
  rw [ofString, List.length_map] at hlength
  rw [quoted, Reader.string, ofString, Reader.stringRest_ofChars _ _ _ (by rw [List.length_append]; omega)]
  simp

/-! ## Numbers -/

end Json

open Json (Digits WrittenExponent WrittenNumber isDigit)

/-- A numeral that is read from its own text. -/
def Numeral.Writable (n : Numeral) : Prop := ∃ m : WrittenNumber, m.chars = n.chars ∧ m.numeral = n

/-- Decimal digits are digits. -/
theorem all_isDigit_decimalDigits (n : Nat) : (decimalDigits n).all isDigit = true :=
  List.all_eq_true.2 fun _ hc => isDigit_of_mem_decimalDigits hc

theorem all_isDigit_zeros (n : Nat) : (List.replicate n '0').all isDigit = true := by
  rw [List.all_replicate]
  simp [isDigit]

/-- The digits of a natural number, as they are written. -/
def Json.Digits.ofNat (n : Nat) : Digits := ⟨decimalDigits n, decimalDigits_ne_nil n, all_isDigit_decimalDigits n⟩

/-- An exponent with its sign. -/
def Json.WrittenExponent.ofInt (e : Int) : WrittenExponent := ⟨false, some (decide (e < 0)), .ofNat e.natAbs⟩

/-- An exponent is spelled as it is written. -/
theorem Json.WrittenExponent.chars_ofInt (e : Int) : (ofInt e).chars = Numeral.exponentChars (some e) := by
  simp [ofInt, chars, Numeral.exponentChars, Digits.ofNat]

/-- An exponent stands for itself. -/
theorem Json.WrittenExponent.value_ofInt (e : Int) : (ofInt e).value = e := by
  simp only [ofInt, value, Digits.ofNat, digitsValue_decimalDigits, Option.some.injEq, decide_eq_true_eq]
  split <;> omega

/-- A numeral is written as numbers are if its digits are digits and no zero stands in front of them. -/
theorem Numeral.writable {n : Numeral} (hne : n.whole ≠ []) (hwhole : n.whole.all isDigit = true)
    (hunpadded : n.whole.head? = some '0' → n.whole = ['0']) (hfraction : n.fraction.all isDigit = true) : n.Writable := by
  rcases n with ⟨negative, whole, fraction, exponent⟩
  have hexponentChars : (exponent.map WrittenExponent.ofInt).elim [] WrittenExponent.chars = exponentChars exponent := by
    cases exponent with
    | none => rfl
    | some e => exact WrittenExponent.chars_ofInt e
  have hexponentValue : (exponent.map WrittenExponent.ofInt).map WrittenExponent.value = exponent := by
    cases exponent with
    | none => rfl
    | some e => exact congrArg some (WrittenExponent.value_ofInt e)
  by_cases hempty : fraction = []
  · subst hempty
    refine ⟨⟨negative, ⟨whole, hne, hwhole⟩, none, exponent.map .ofInt, hunpadded⟩, ?_, ?_⟩
    · simp [WrittenNumber.chars, chars, hexponentChars]
    · simp [WrittenNumber.numeral, hexponentValue]
  · refine ⟨⟨negative, ⟨whole, hne, hwhole⟩, some ⟨fraction, hempty, hfraction⟩, exponent.map .ofInt, hunpadded⟩, ?_, ?_⟩
    · simp [WrittenNumber.chars, chars, hexponentChars, hempty]
    · simp [WrittenNumber.numeral, hexponentValue]

/-- Integers can be written. -/
theorem Numeral.writable_ofInt (i : Int) : (ofInt i).Writable := by
  refine writable (decimalDigits_ne_nil _) (all_isDigit_decimalDigits _) (fun hhead => ?_) rfl
  by_cases hzero : i.natAbs = 0
  · simp only [ofInt, hzero]
    rfl
  · exact absurd hhead (head?_decimalDigits_ne hzero)

section Decimals

variable (negative : Bool) {d : Decimal} (h : d.digits ≠ 0)
include h

/-- The digits of a decimal may be split anywhere but in front of the first. -/
theorem Numeral.writable_split {n : Nat} (hn : 0 < n) (exponent : Option Int) :
    Writable { negative, whole := (decimalDigits d.digits).take n, fraction := (decimalDigits d.digits).drop n, exponent } := by
  have hdigits := all_isDigit_decimalDigits d.digits
  rw [← List.take_append_drop n (decimalDigits d.digits), List.all_append, Bool.and_eq_true] at hdigits
  refine writable ?_ hdigits.1 (fun hpadded => ?_) hdigits.2
  · rw [ne_eq, List.take_eq_nil_iff]
    rintro (hzero | hnil)
    · omega
    · exact decimalDigits_ne_nil _ hnil
  · rw [List.head?_take, if_neg (by omega)] at hpadded
    exact absurd hpadded (head?_decimalDigits_ne h)

/-- A numeral without an exponent can be written. -/
theorem Numeral.writable_positional : (positional negative d ['0']).Writable := by
  have hdigits := all_isDigit_decimalDigits d.digits
  simp only [positional]
  split
  · exact writable (List.cons_ne_nil _ _) rfl (fun _ => rfl) (by rw [List.all_append, all_isDigit_zeros, hdigits]; rfl)
  · split
    · have hne := decimalDigits_ne_nil d.digits
      refine writable (List.append_ne_nil_of_left_ne_nil hne _) (by rw [List.all_append, hdigits, all_isDigit_zeros]; rfl)
        (fun hpadded => ?_) rfl
      rw [List.head?_append_of_ne_nil _ hne] at hpadded
      exact absurd hpadded (head?_decimalDigits_ne h)
    · exact writable_split negative h (by omega) none

/-- A numeral with an exponent can be written. -/
theorem Numeral.writable_scientific : (scientific negative d).Writable := writable_split negative h Nat.one_pos _

end Decimals

/-- Finite doubles can be written. -/
theorem Numeral.writable_ofBinary64 {x : Binary64} (h : x.isFinite = true) : (ofBinary64 x).Writable := by
  rcases ofBinary64_cases x with ⟨-, hform⟩ | ⟨hzero, hform | hform⟩
  · rw [hform]
    exact writable (List.cons_ne_nil _ _) rfl (fun _ => rfl) rfl
  · rw [hform]
    exact writable_positional _ (Shortest.rounds_shortest .even h hzero).1
  · rw [hform]
    exact writable_scientific _ (Shortest.rounds_shortest .even h hzero).1

namespace Json

/-! ## Values -/

mutual

/-- A value whose numerals are read from their own texts. -/
def Writable : Json → Prop
  | .null | .bool _ | .str _ => True
  | .num n => n.Writable
  | .arr items => ItemsWritable items
  | .obj members => MembersWritable members

/-- Items whose numerals are read from their own texts. -/
def ItemsWritable : List Json → Prop
  | [] => True
  | item :: rest => Writable item ∧ ItemsWritable rest

/-- Members whose numerals are read from their own texts. -/
def MembersWritable : List (String × Json) → Prop
  | [] => True
  | (_, value) :: rest => Writable value ∧ MembersWritable rest

end

/-- Items can be written if each of them can. -/
theorem itemsWritable_iff {items : List Json} : ItemsWritable items ↔ ∀ item ∈ items, item.Writable := by
  induction items with
  | nil => simp [ItemsWritable]
  | cons item rest ih => simp [ItemsWritable, ih]

/-- Members can be written if each value can. -/
theorem membersWritable_iff {members : List (String × Json)} : MembersWritable members ↔ ∀ m ∈ members, m.2.Writable := by
  induction members with
  | nil => simp [MembersWritable]
  | cons m rest ih => simp [MembersWritable, ih]

/-- A list can be written if its items can. -/
theorem writable_arr {items : List Json} : (arr items).Writable ↔ ∀ item ∈ items, item.Writable := by
  rw [Writable, itemsWritable_iff]

/-- An object can be written if its values can. -/
theorem writable_obj {members : List (String × Json)} : (obj members).Writable ↔ ∀ m ∈ members, m.2.Writable := by
  rw [Writable, membersWritable_iff]

theorem writable_str (s : String) : (str s).Writable := by
  rw [Writable]
  trivial

theorem writable_bool (b : Bool) : (bool b).Writable := by
  rw [Writable]
  trivial

theorem writable_int (i : Int) : (int i).Writable := by
  rw [int, Writable]
  exact Numeral.writable_ofInt i

theorem writable_nat (n : Nat) : (nat n).Writable := writable_int n

/-- Every double can be written: one that is not finite becomes null. -/
theorem writable_float (x : Binary64) : (float x).Writable := by
  unfold float
  split
  · rename_i h
    rw [Writable]
    exact Numeral.writable_ofBinary64 h
  · rw [Writable]
    trivial

/-- An optional member can be written if its value can. -/
theorem writable_member? {α : Type} {f : α → Json} {o : Option α} (h : ∀ a ∈ o, (f a).Writable) (key : String) :
    ∀ m ∈ member? key f o, m.2.Writable := by
  cases o with
  | none => exact List.forall_mem_nil _
  | some a => exact List.forall_mem_singleton.2 (h a rfl)

theorem writable_flag? (key : String) (b : Bool) : ∀ m ∈ flag? key b, m.2.Writable := by
  cases b with
  | false => exact List.forall_mem_nil _
  | true => exact List.forall_mem_singleton.2 (writable_bool true)

/-- Each item but the first comes after a comma. -/
theorem itemsChars_cons (item : Json) (rest : List Json) :
    itemsChars (item :: rest) = item.chars ++ rest.flatMap fun j => ',' :: j.chars := by
  induction rest generalizing item with
  | nil => simp [itemsChars]
  | cons next rest ih => simp [itemsChars, ih]

/-- Each member but the first comes after a comma. -/
theorem membersChars_cons (key : String) (value : Json) (rest : List (String × Json)) :
    membersChars ((key, value) :: rest)
      = stringChars key ++ ':' :: (value.chars ++ rest.flatMap fun m => ',' :: (stringChars m.1 ++ ':' :: m.2.chars)) := by
  induction rest generalizing key value with
  | nil => simp [membersChars]
  | cons next rest ih => simp [membersChars, ih]

mutual

/-- The compact text of a value is what its tokens make without blanks. -/
theorem exists_written : ∀ j : Json, j.Writable → ∃ w : Written, w.tokens.flatten = j.chars ∧ w.source = .ofJson j
  | .null, _ => ⟨.null, by rw [Written.tokens, chars]; rfl, by rw [Written.source, Source.ofJson]⟩
  | .bool b, _ => ⟨.bool b, by cases b <;> rw [Written.tokens, chars] <;> rfl, by rw [Written.source, Source.ofJson]⟩
  | .num n, h => by
    rw [Writable] at h
    obtain ⟨m, hchars, hnumeral⟩ := h
    exact ⟨.number m, by simp [Written.tokens, chars, hchars], by rw [Written.source, Source.ofJson, hnumeral]⟩
  | .str s, _ => ⟨.string (.ofString s), by simp [Written.tokens, chars, Spelling.chars_ofString],
      by rw [Written.source, Source.ofJson, Spelling.quoted_ofString]⟩
  | .arr [], _ => ⟨.array [], by simp [Written.tokens, chars, itemsChars],
      by rw [Written.source, Source.ofJson, Written.itemsSource, Source.ofItems]⟩
  | .arr (item :: rest), h => by
    rw [Writable, ItemsWritable] at h
    obtain ⟨w, htokens, hsource⟩ := exists_written item h.1
    obtain ⟨ws, hitems, hitemsSource⟩ := exists_writtenItems rest h.2
    refine ⟨.array (w :: ws), ?_, ?_⟩
    · simp [Written.tokens, chars, itemsChars_cons, htokens, hitems]
    · rw [Written.source, Source.ofJson, Written.itemsSource, Source.ofItems, hsource, hitemsSource]
  | .obj [], _ => ⟨.object [], by simp [Written.tokens, chars, membersChars],
      by rw [Written.source, Source.ofJson, Written.membersSource, Source.ofMembers]⟩
  | .obj ((key, value) :: rest), h => by
    rw [Writable, MembersWritable] at h
    obtain ⟨w, htokens, hsource⟩ := exists_written value h.1
    obtain ⟨ws, hmembers, hmembersSource⟩ := exists_writtenMembers rest h.2
    refine ⟨.object ((.ofString key, w) :: ws), ?_, ?_⟩
    · simp [Written.tokens, chars, membersChars_cons, Spelling.chars_ofString, htokens, hmembers]
    · rw [Written.source, Source.ofJson, Written.membersSource, Source.ofMembers, Spelling.quoted_ofString, hsource, hmembersSource]

/-- The rest of a compact list is a way to write it. -/
theorem exists_writtenItems : ∀ items : List Json, ItemsWritable items → ∃ ws : List Written,
    (Written.itemsTokens ws).flatten = (items.flatMap fun j => ',' :: j.chars) ++ [']'] ∧ Written.itemsSource ws = Source.ofItems items
  | [], _ => ⟨[], by rw [Written.itemsTokens]; rfl, by rw [Written.itemsSource, Source.ofItems]⟩
  | item :: rest, h => by
    rw [ItemsWritable] at h
    obtain ⟨w, htokens, hsource⟩ := exists_written item h.1
    obtain ⟨ws, hitems, hitemsSource⟩ := exists_writtenItems rest h.2
    refine ⟨w :: ws, ?_, ?_⟩
    · simp [Written.itemsTokens, htokens, hitems]
    · rw [Written.itemsSource, Source.ofItems, hsource, hitemsSource]

/-- The rest of a compact object is a way to write it. -/
theorem exists_writtenMembers : ∀ members : List (String × Json), MembersWritable members → ∃ ws : List (Spelling × Written),
    (Written.membersTokens ws).flatten
        = (members.flatMap fun m => ',' :: (stringChars m.1 ++ ':' :: m.2.chars)) ++ ['\x7d']
      ∧ Written.membersSource ws = Source.ofMembers members
  | [], _ => ⟨[], by rw [Written.membersTokens]; rfl, by rw [Written.membersSource, Source.ofMembers]⟩
  | (key, value) :: rest, h => by
    rw [MembersWritable] at h
    obtain ⟨w, htokens, hsource⟩ := exists_written value h.1
    obtain ⟨ws, hmembers, hmembersSource⟩ := exists_writtenMembers rest h.2
    refine ⟨(.ofString key, w) :: ws, ?_, ?_⟩
    · simp [Written.membersTokens, Spelling.chars_ofString, htokens, hmembers]
    · rw [Written.membersSource, Source.ofMembers, Spelling.quoted_ofString, hsource, hmembersSource]

end

/-- The compact text of a value is decoded as the value is. -/
theorem decode_compact {α : Type} {j : Json} (h : j.Writable) (decode : Source → Decoded α) :
    (Document.read j.compact).decode decode = decode (.ofJson j) := by
  obtain ⟨w, htokens, hsource⟩ := j.exists_written h
  have htext : w.text [] = j.compact := by simp [Written.text, compact, ← htokens]
  have hcompact : w.IsTextOf j.compact := htext ▸ w.isTextOf_text rfl
  rw [hcompact.decode_eq, hsource]

mutual

/-- Values that are read as the same are the same. -/
theorem ofJson_injective : ∀ {j k : Json}, Source.ofJson j = .ofJson k → j = k
  | .null, k, h => by cases k <;> simp_all [Source.ofJson]
  | .bool _, k, h => by cases k <;> simp_all [Source.ofJson]
  | .num _, k, h => by cases k <;> simp_all [Source.ofJson]
  | .str _, k, h => by cases k <;> simp_all [Source.ofJson]
  | .arr items, k, h => by
    cases k with
    | arr items' =>
      rw [Source.ofJson, Source.ofJson] at h
      rw [ofItems_injective (Source.array.inj h).1]
    | _ => simp [Source.ofJson] at h
  | .obj members, k, h => by
    cases k with
    | obj members' =>
      rw [Source.ofJson, Source.ofJson] at h
      rw [ofMembers_injective (Source.object.inj h).1]
    | _ => simp [Source.ofJson] at h

/-- Items that are read as the same are the same. -/
theorem ofItems_injective : ∀ {items items' : List Json}, Source.ofItems items = Source.ofItems items' → items = items'
  | [], items', h => by cases items' <;> simp_all [Source.ofItems]
  | item :: rest, items', h => by
    cases items' with
    | nil => simp [Source.ofItems] at h
    | cons item' rest' =>
      rw [Source.ofItems, Source.ofItems] at h
      obtain ⟨hitem, hrest⟩ := List.cons.inj h
      rw [ofJson_injective hitem, ofItems_injective hrest]

/-- Members that are read as the same are the same. -/
theorem ofMembers_injective : ∀ {members members' : List (String × Json)},
    Source.ofMembers members = Source.ofMembers members' → members = members'
  | [], members', h => by cases members' <;> simp_all [Source.ofMembers]
  | (key, value) :: rest, members', h => by
    cases members' with
    | nil => simp [Source.ofMembers] at h
    | cons m' rest' =>
      rw [Source.ofMembers, Source.ofMembers] at h
      obtain ⟨hmember, hrest⟩ := List.cons.inj h
      obtain ⟨hkey, hvalue⟩ := Prod.mk.inj hmember
      rw [Quoted.text.inj hkey, ofJson_injective hvalue, ofMembers_injective hrest]

end

/-- A value is told by its compact text. -/
theorem compact_injective {j k : Json} (hj : j.Writable) (hk : k.Writable) (h : j.compact = k.compact) : j = k := by
  have hread := decode_compact hj Except.ok
  rw [h, decode_compact hk] at hread
  exact ofJson_injective (Except.ok.inj hread).symm

end Json

end PatchGraph
