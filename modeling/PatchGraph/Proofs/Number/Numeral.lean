import PatchGraph.Proofs.Number.Shortest

/-!
# Numerals and the numbers they stand for

The numeral of an integer is read as that integer (`read_ofInt`). The numeral of a double has the value of its shortest decimal in
either layout (`value_positional`, `value_scientific`), so it is the numeral of no other double (`ofBinary64_injective`), though reading
it may give another one. Whatever is read is finite (`isFinite_of_read`).
-/

namespace PatchGraph

/-! ## Digits -/

/-- A number has at least one digit. -/
theorem decimalDigits_ne_nil (n : Nat) : decimalDigits n ≠ [] := Nat.toDigits_ne_nil

/-- A number is written with digits. -/
theorem isDigit_of_mem_decimalDigits {n : Nat} {c : Char} (h : c ∈ decimalDigits n) : c.isDigit = true :=
  Nat.isDigit_of_mem_toDigits (by decide) (by decide) h

/-- A positive number does not start with a zero. -/
theorem head?_decimalDigits_ne {n : Nat} (hn : n ≠ 0) : (decimalDigits n).head? ≠ some '0' := by
  induction n using Nat.strongRecOn with
  | ind n ih =>
    by_cases hlt : n < 10
    · rw [decimalDigits, Nat.toDigits_of_lt_base hlt, List.head?_cons]
      intro hzero
      exact hn (Nat.digitChar_eq_zero.1 (Option.some.inj hzero))
    · rw [decimalDigits, Nat.toDigits_of_base_le (by decide) (Nat.not_lt.1 hlt), List.head?_append_of_ne_nil _ Nat.toDigits_ne_nil]
      exact ih (n / 10) (by omega) (by omega)

/-- The digits of a number have its value. -/
theorem digitsValue_decimalDigits (n : Nat) : digitsValue (decimalDigits n) = n := Nat.ofDigitChars_ten_toDigits

/-- Digits that follow shift those before them. -/
theorem digitsValue_append (ds es : List Char) : digitsValue (ds ++ es) = 10 ^ es.length * digitsValue ds + digitsValue es :=
  (Nat.ofDigitChars_append 0).trans Nat.ofDigitChars_eq_ofDigitChars_zero

theorem digitsValue_zeros (n : Nat) : digitsValue (List.replicate n '0') = 0 :=
  Nat.ofDigitChars_replicate_zero.trans (Nat.mul_zero _)

namespace Numeral

/-! ## Integers -/

/-- The numeral of an integer that fits a word is read as that integer. -/
theorem read_ofInt {i : Int} (h : isWord i = true) : (ofInt i).read = some (.int i) := by
  have hvalue : (if i < 0 then -(i.natAbs : Int) else i.natAbs) = i := by split <;> omega
  have hsign : ¬(i < 0 ∧ i.natAbs = 0) := by omega
  simp only [read, ofInt, digitsValue_decimalDigits, decide_eq_true_eq, hvalue]
  exact if_pos ⟨rfl, trivial, h, hsign⟩

/-! ## Doubles -/

/-- The number a numeral stands for, exactly and without its sign. -/
def value (n : Numeral) : ℚ := digitsValue (n.whole ++ n.fraction) * 10 ^ (n.exponent.getD 0 - n.fraction.length)

/-- The layout without an exponent has the value of the decimal. -/
theorem value_positional (negative : Bool) (d : Decimal) : (positional negative d ['0']).value = d.digits * 10 ^ d.exponent := by
  have hvalue := digitsValue_decimalDigits d.digits
  have hzero : digitsValue ['0'] = 0 := rfl
  simp only [positional]
  generalize decimalDigits d.digits = ds at hvalue
  split
  · rename_i hpoint
    have hplaces : -(((-(ds.length + d.exponent)).toNat + ds.length : Nat) : Int) = d.exponent := by omega
    simp only [value, Option.getD_none, List.length_append, List.length_replicate, zero_sub, hplaces, digitsValue_append,
      digitsValue_zeros, hzero, hvalue, Nat.mul_zero, Nat.zero_add]
  · split
    · rename_i hpoint hwhole
      obtain ⟨e, he⟩ : ∃ e : Nat, d.exponent = e := ⟨d.exponent.toNat, by omega⟩
      rw [he]
      have hzeros : ((ds.length : Int) + e).toNat - ds.length = e := by omega
      simp only [value, Option.getD_none, hzeros, digitsValue_append, digitsValue_zeros, hzero, hvalue, List.length_replicate,
        List.length_singleton, Nat.add_zero]
      rw [zpow_natCast]
      push_cast
      norm_num
      ring
    · rename_i hpoint hwhole
      have hplaces : -((ds.drop ((ds.length : Int) + d.exponent).toNat).length : Int) = d.exponent := by
        rw [List.length_drop]
        omega
      simp only [value, Option.getD_none, List.take_append_drop, zero_sub, hplaces, hvalue]

/-- The layout with an exponent has the value of the decimal. -/
theorem value_scientific (negative : Bool) (d : Decimal) : (scientific negative d).value = d.digits * 10 ^ d.exponent := by
  have hvalue := digitsValue_decimalDigits d.digits
  have hpos : 0 < (decimalDigits d.digits).length := List.length_pos_iff.2 (decimalDigits_ne_nil _)
  have hplaces : ((decimalDigits d.digits).length : Int) + d.exponent - 1 - ((decimalDigits d.digits).drop 1).length = d.exponent := by
    rw [List.length_drop]
    omega
  simp only [value, scientific, List.take_append_drop, Option.getD_some, hplaces, hvalue]

/-- A double is written as a zero or in one of the two layouts. -/
theorem ofBinary64_cases (x : Binary64) :
    (x.isZero = true ∧ ofBinary64 x = { negative := x.isNegative, whole := ['0'], fraction := ['0'] })
      ∨ x.isZero = false ∧ (ofBinary64 x = positional x.isNegative (x.shortest .even) ['0']
        ∨ ofBinary64 x = scientific x.isNegative (x.shortest .even)) := by
  cases h : x.isZero with
  | true => exact .inl ⟨rfl, if_pos h⟩
  | false =>
    refine .inr ⟨rfl, ?_⟩
    simp only [ofBinary64, h, Bool.false_eq_true, if_false]
    split
    · exact .inl rfl
    · exact .inr rfl

theorem negative_positional (negative : Bool) (d : Decimal) (tail : List Char) : (positional negative d tail).negative = negative := by
  simp only [positional]
  repeat' split
  all_goals rfl

/-- The numeral of a double has its sign. -/
theorem ofBinary64_negative (x : Binary64) : (ofBinary64 x).negative = x.isNegative := by
  rcases ofBinary64_cases x with ⟨-, h⟩ | ⟨-, h | h⟩
  · rw [h]
  · rw [h, negative_positional]
  · rw [h, scientific]

/-- The numerals of both zeros have the value zero. -/
theorem value_ofBinary64_zero {x : Binary64} (h : x.isZero = true) : (ofBinary64 x).value = 0 := by
  rw [ofBinary64, if_pos h]
  simp [value, digitsValue]

/-- The numeral of a double has the value of its shortest decimal. -/
theorem value_ofBinary64 {x : Binary64} (h : x.isZero = false) :
    (ofBinary64 x).value = (x.shortest .even).digits * 10 ^ (x.shortest .even).exponent := by
  rcases ofBinary64_cases x with ⟨hzero, -⟩ | ⟨-, hform | hform⟩
  · cases h.symm.trans hzero
  · rw [hform, value_positional]
  · rw [hform, value_scientific]

/-- The numeral of a finite double is that of no other one. -/
theorem ofBinary64_injective {x y : Binary64} (hx : x.isFinite = true) (hy : y.isFinite = true) (h : ofBinary64 x = ofBinary64 y) :
    x = y := by
  have hsign : x.isNegative = y.isNegative := by rw [← ofBinary64_negative, ← ofBinary64_negative, h]
  have hpositive : ∀ {z : Binary64}, z.isFinite = true → z.isZero = false → (ofBinary64 z).value ≠ 0 := by
    intro z hfinite hz
    rw [value_ofBinary64 hz]
    have hdigits := (Shortest.rounds_shortest .even hfinite hz).1
    positivity
  cases hzx : x.isZero with
  | true =>
    cases hzy : y.isZero with
    | true =>
      simp only [Binary64.isZero, Bool.and_eq_true, beq_iff_eq] at hzx hzy
      exact Binary64.ext_fields hsign (hzx.1.trans hzy.1.symm) (hzx.2.trans hzy.2.symm)
    | false => exact absurd (h ▸ value_ofBinary64_zero hzx) (hpositive hy hzy)
  | false =>
    cases hzy : y.isZero with
    | true => exact absurd (h ▸ value_ofBinary64_zero hzy) (hpositive hx hzx)
    | false =>
      have hrounds := (Shortest.rounds_shortest .even hx hzx).2
      have hrounds' := (Shortest.rounds_shortest .even hy hzy).2
      rw [← value_ofBinary64 hzx, h] at hrounds
      rw [← value_ofBinary64 hzy] at hrounds'
      obtain ⟨hsignificand, hscale⟩ := hrounds.unique (Shortest.canonical x) (Shortest.canonical y) hrounds'
      exact Binary64.ext_value hsign hsignificand hscale

/-! ## Reading -/

/-- An integer is read from digits alone that fit a word, and a double from its magnitude. -/
theorem read_cases {n : Numeral} {r : Reading} (h : n.read = some r) :
    (∃ i, r = .int i ∧ isWord i = true ∧ n.fraction = [] ∧ n.exponent = none)
      ∨ ∃ x, r = .float (if n.negative then x.neg else x) ∧ n.magnitude = some x := by
  simp only [read] at h
  generalize (if n.negative then -(digitsValue n.whole : Int) else digitsValue n.whole) = i at h
  by_cases hint : n.fraction.isEmpty ∧ n.exponent = none ∧ isWord i ∧ ¬(n.negative ∧ digitsValue n.whole = 0)
  · rw [if_pos hint] at h
    exact .inl ⟨i, (Option.some.inj h).symm, hint.2.2.1, List.isEmpty_iff.1 hint.1, hint.2.1⟩
  · rw [if_neg hint] at h
    obtain ⟨x, hx, hr⟩ := Option.map_eq_some_iff.1 h
    exact .inr ⟨x, hr.symm, hx⟩

/-- An integer that is read fits a word. -/
theorem isWord_of_read {n : Numeral} {i : Int} (h : n.read = some (.int i)) : isWord i = true := by
  rcases read_cases h with ⟨j, hj, hword, -⟩ | ⟨x, hx, -⟩
  · exact Reading.int.inj hj ▸ hword
  · cases hx

/-- To scale by a power of ten gives finite doubles. -/
theorem isFinite_of_timesPowerOfTen {x y : Binary64} {e : Int} (h : x.timesPowerOfTen e = some y) : y.isFinite = true := by
  unfold Binary64.timesPowerOfTen at h
  split at h
  case isTrue hzero =>
    obtain rfl := Option.some.inj h
    simp only [Binary64.isZero, Bool.and_eq_true, beq_iff_eq] at hzero
    simp [Binary64.isFinite, hzero.1]
  case isFalse =>
  simp only at h
  split at h
  · split at h
    · exact Binary64.isFinite_of_ofRatio h
    · cases h
  · split at h
    · exact Binary64.isFinite_of_ofRatio h
    · split at h
      · obtain ⟨z, -, hy⟩ := Option.bind_eq_some_iff.1 h
        exact Binary64.isFinite_of_ofRatio hy
      · exact Option.some.inj h ▸ rfl

/-- Every double that is read is finite. -/
theorem isFinite_of_read {n : Numeral} {x : Binary64} (h : n.read = some (.float x)) : x.isFinite = true := by
  rcases read_cases h with ⟨i, hi, -⟩ | ⟨y, hy, hmagnitude⟩
  · cases hi
  · have hfinite : y.isFinite = true := isFinite_of_timesPowerOfTen hmagnitude
    rw [Reading.float.inj hy]
    split
    · rwa [Binary64.isFinite_neg]
    · exact hfinite

/-- A double is written with a fraction, so it is not read as an integer. -/
theorem fraction_positional_ne_nil (negative : Bool) (d : Decimal) : (positional negative d ['0']).fraction ≠ [] := by
  have hdigits := decimalDigits_ne_nil d.digits
  simp only [positional]
  split
  · exact List.append_ne_nil_of_right_ne_nil _ hdigits
  · split
    · exact List.cons_ne_nil _ _
    · rw [ne_eq, List.drop_eq_nil_iff]
      omega

/-- The numeral of a double has a point or an exponent, so it is never read as an integer. -/
theorem read_ofBinary64_ne_int (x : Binary64) (i : Int) : (ofBinary64 x).read ≠ some (.int i) := by
  intro h
  rcases read_cases h with ⟨j, -, -, hfraction, hexponent⟩ | ⟨y, hy, -⟩
  · rcases ofBinary64_cases x with ⟨-, hform⟩ | ⟨-, hform | hform⟩
    · rw [hform] at hfraction
      cases hfraction
    · rw [hform] at hfraction
      exact fraction_positional_ne_nil _ _ hfraction
    · rw [hform] at hexponent
      cases hexponent
  · cases hy

end Numeral

end PatchGraph
