import Mathlib.Algebra.Ring.Nat

/-!
# Texts as bytes

Texts are compared character by character, and ids are meant to be ordered byte by byte. Both are the same order
(`bytes_lt_bytes_iff`): the first byte of a character tells how many bytes follow and grows with the character, and the bytes that follow
are the digits of its number in base 64.
-/

namespace PatchGraph.Text

/-- The bytes of a text. -/
def bytes (s : String) : List UInt8 := s.toByteArray.data.toList

theorem bytes_eq_flatMap (s : String) : bytes s = s.toList.flatMap String.utf8EncodeChar := by
  rw [bytes, ← String.utf8Encode_toList]
  simp [List.utf8Encode]

/-! ## The bytes of a character -/

/-- The last bytes of a character: the low digits of its number. -/
def continuation (v : Nat) : Nat → List UInt8
  | 0 => []
  | k + 1 => UInt8.ofNat (v / 64 ^ k % 64 + 0x80) :: continuation v k

theorem cons_lt_cons {a b : Nat} (hb : b < 256) (hle : a ≤ b) {s t : List UInt8} (h : a = b → s < t) :
    UInt8.ofNat a :: s < UInt8.ofNat b :: t := by
  rw [List.cons_lt_cons_iff, UInt8.lt_iff_toNat_lt, ← UInt8.toNat_inj, UInt8.toNat_ofNat', UInt8.toNat_ofNat']
  rcases Nat.lt_or_eq_of_le hle with hlt | heq
  · exact .inl (by omega)
  · exact .inr ⟨by omega, h heq⟩

/-- Of two numbers that agree above some digits, the smaller one comes first in these digits. -/
theorem continuation_lt {v w : Nat} (hlt : v < w) {k : Nat} (heq : v / 64 ^ k = w / 64 ^ k) (s t : List UInt8) :
    continuation v k ++ s < continuation w k ++ t := by
  induction k with
  | zero =>
    rw [pow_zero, Nat.div_one, Nat.div_one] at heq
    omega
  | succ k ih =>
    rw [pow_succ, ← Nat.div_div_eq_div_mul, ← Nat.div_div_eq_div_mul] at heq
    have hle : v / 64 ^ k ≤ w / 64 ^ k := Nat.div_le_div_right (Nat.le_of_lt hlt)
    exact cons_lt_cons (by omega) (by omega) fun h => ih (by omega)

/-- The first byte of a character, and how many bytes follow it. -/
def IsLead (v first k : Nat) : Prop :=
  v < 0x80 ∧ first = v ∧ k = 0
    ∨ 0x80 ≤ v ∧ v < 0x800 ∧ first = 0xc0 + v / 64 ^ 1 ∧ k = 1
    ∨ 0x800 ≤ v ∧ v < 0x10000 ∧ first = 0xe0 + v / 64 ^ 2 ∧ k = 2
    ∨ 0x10000 ≤ v ∧ v < 0x110000 ∧ first = 0xf0 + v / 64 ^ 3 ∧ k = 3

/-- A character is its first byte and the digits that are left. -/
theorem exists_isLead (c : Char) :
    ∃ first k, IsLead c.toNat first k ∧ String.utf8EncodeChar c = UInt8.ofNat first :: continuation c.toNat k := by
  have hvalid : c.toNat < 0x110000 := by
    rcases c.valid with h | h
    · exact Nat.lt_trans h (by decide)
    · exact h.2
  unfold String.utf8EncodeChar IsLead
  dsimp only
  rw [show c.val.toNat = c.toNat from rfl]
  generalize c.toNat = v at hvalid
  split_ifs with h₁ h₂ h₃
  · exact ⟨v, 0, by omega, rfl⟩
  · refine ⟨0xc0 + v / 64 ^ 1, 1, by omega, ?_⟩
    rw [Nat.mod_eq_of_lt (show v / 64 < 32 by omega)]
    simp [continuation, Nat.add_comm]
  · refine ⟨0xe0 + v / 64 ^ 2, 2, by omega, ?_⟩
    rw [Nat.mod_eq_of_lt (show v / 4096 < 16 by omega)]
    simp [continuation, Nat.add_comm]
  · refine ⟨0xf0 + v / 64 ^ 3, 3, by omega, ?_⟩
    rw [Nat.mod_eq_of_lt (show v / 262144 < 8 by omega)]
    simp [continuation, Nat.add_comm]

/-- First bytes ascend. Where they are equal, as many digits follow, and the numbers agree above these digits. -/
theorem IsLead.le {v w first first' k l : Nat} (h : IsLead v first k) (h' : IsLead w first' l) (hlt : v < w) :
    first ≤ first' ∧ first' < 256 ∧ (first = first' → k = l ∧ v / 64 ^ k = w / 64 ^ k) := by
  unfold IsLead at h h'
  refine ⟨by omega, by omega, fun heq => ?_⟩
  have hkl : k = l := by omega
  subst hkl
  refine ⟨rfl, ?_⟩
  rcases h with ⟨hv, hfirst, rfl⟩ | ⟨-, -, hfirst, rfl⟩ | ⟨-, -, hfirst, rfl⟩ | ⟨-, -, hfirst, rfl⟩ <;> omega

/-- A smaller character comes first in bytes, whatever follows. -/
theorem utf8EncodeChar_lt {c d : Char} (h : c < d) (s t : List UInt8) :
    String.utf8EncodeChar c ++ s < String.utf8EncodeChar d ++ t := by
  have hlt : c.toNat < d.toNat := h
  obtain ⟨first, k, hlead, hc⟩ := exists_isLead c
  obtain ⟨first', l, hlead', hd⟩ := exists_isLead d
  obtain ⟨hle, hbyte, hdigits⟩ := hlead.le hlead' hlt
  rw [hc, hd]
  refine cons_lt_cons hbyte hle fun heq => ?_
  obtain ⟨rfl, hdiv⟩ := hdigits heq
  exact continuation_lt hlt hdiv s t

/-! ## The order of texts -/

theorem bytes_lt_bytes {s t : String} (h : s < t) : bytes s < bytes t := by
  rw [bytes_eq_flatMap, bytes_eq_flatMap]
  have h : s.toList < t.toList := h
  generalize s.toList = cs at h
  generalize t.toList = ds at h
  induction h with
  | @nil d ds =>
    obtain ⟨first, k, -, hd⟩ := exists_isLead d
    rw [List.flatMap_cons, hd]
    exact List.nil_lt_cons _ _
  | rel h => exact utf8EncodeChar_lt h _ _
  | cons h ih =>
    rw [List.flatMap_cons, List.flatMap_cons]
    exact List.append_left_lt ih

/-- Texts are ordered as their bytes are. -/
theorem bytes_lt_bytes_iff {s t : String} : bytes s < bytes t ↔ s < t := by
  refine ⟨fun h => ?_, bytes_lt_bytes⟩
  by_contra hnot
  by_cases hgt : t < s
  · exact List.lt_asymm h (bytes_lt_bytes hgt)
  · have heq : s = t := String.le_antisymm (String.not_lt.1 hgt) (String.not_lt.1 hnot)
    exact List.lt_irrefl _ (heq ▸ h)

theorem bytes_le_bytes_iff {s t : String} : bytes s ≤ bytes t ↔ s ≤ t := by
  rw [← List.not_lt, ← String.not_lt, bytes_lt_bytes_iff]

/-- To compare texts is to order them. -/
theorem isLE_compare_iff {s t : String} : (compare s t).isLE = true ↔ s ≤ t :=
  isLE_compareOfLessAndEq String.le_antisymm String.not_le String.le_total

/-- What is ordered by a key and then by a text is ordered by the bytes of the text where the keys are equal. -/
theorem isLE_then_compare_iff {κ : Type} [Ord κ] [LT κ] [LE κ] [Std.LawfulOrderOrd κ] [Std.LawfulOrderLT κ] [Std.LawfulEqOrd κ]
    {a b : κ} {s t : String} : ((compare a b).then (compare s t)).isLE = true ↔ a < b ∨ a = b ∧ bytes s ≤ bytes t := by
  rw [Ordering.isLE_then_iff_or, Std.compare_eq_lt, Std.LawfulEqOrd.compare_eq_iff_eq, isLE_compare_iff, bytes_le_bytes_iff]

end PatchGraph.Text
