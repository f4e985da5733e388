import Stencil.Proofs.Text.Utf8

/-! # Decimal and hexadecimal digits

Numbers are read back from the digits that were written for them. -/

namespace Stencil

open Text.Utf8 (toNat_toUInt8)

/-! ### One digit -/

theorem hexValue_hexDigit {d : Nat} (h : d < 16) : hexValue? (hexDigit d) = some d :=
  (by decide : ∀ d < 16, hexValue? (hexDigit d) = some d) d h

theorem isDigit_hexDigit {d : Nat} (h : d < 10) : isDigit (hexDigit d) = true :=
  (by decide : ∀ d < 10, isDigit (hexDigit d) = true) d h

theorem toNat_hexDigit {d : Nat} (h : d < 10) : (hexDigit d).toNat = 48 + d := by
  rw [hexDigit, if_pos h, toNat_toUInt8 (by omega)]

theorem hexDigit_eq_zero {d : Nat} (h : d < 10) (hd : hexDigit d = ascii '0') : d = 0 :=
  (by decide : ∀ d < 10, hexDigit d = ascii '0' → d = 0) d h hd

theorem hexPadded_four (n : Nat) :
    hexPadded 4 n =
      [hexDigit (n / 16 / 16 / 16 % 16), hexDigit (n / 16 / 16 % 16), hexDigit (n / 16 % 16), hexDigit (n % 16)] := rfl

namespace Bytes

theorem ofString_append (a b : String) : ofString (a ++ b) = ofString a ++ ofString b := by
  simp only [ofString, String.toUTF8, String.toByteArray_append, ByteArray.toList_data_append]

theorem ofString_digitChar {d : Nat} (h : d < 10) : ofString (String.singleton d.digitChar) = [hexDigit d] :=
  (by decide : ∀ d < 10, ofString (String.singleton d.digitChar) = [hexDigit d]) d h

/-! ### Natural numbers -/

theorem ofNat_of_lt {n : Nat} (h : n < 10) : ofNat n = [hexDigit n] := by
  rw [ofNat, Nat.repr_of_lt h, ofString_digitChar h]

theorem ofNat_of_ge {n : Nat} (h : 10 ≤ n) : ofNat n = ofNat (n / 10) ++ [hexDigit (n % 10)] := by
  rw [ofNat, Nat.repr_of_ge h, ofString_append, ofString_digitChar (Nat.mod_lt _ (by omega)), ofNat]

/-- What holds of one digit, and of a number with the last digit taken off, holds of all numbers. -/
theorem digits_induction {motive : Nat → Prop} (one : ∀ d < 10, motive d)
    (more : ∀ n, 10 ≤ n → motive (n / 10) → motive n) (n : Nat) : motive n := by
  induction n using Nat.strongRecOn with
  | ind n ih =>
    rcases Nat.lt_or_ge n 10 with h | h
    · exact one n h
    · exact more n h (ih (n / 10) (by omega))

theorem natOfDigits_ofNat (n : Nat) : natOfDigits (ofNat n) = n := by
  induction n using digits_induction with
  | one d h => simp [natOfDigits, ofNat_of_lt h, toNat_hexDigit h]
  | more n h ih =>
    rw [natOfDigits] at ih ⊢
    rw [ofNat_of_ge h, List.foldl_append, ih, List.foldl_cons, List.foldl_nil, toNat_hexDigit (by omega)]
    omega

theorem all_isDigit_ofNat (n : Nat) : (ofNat n).all isDigit = true := by
  induction n using digits_induction with
  | one d h => simp [ofNat_of_lt h, isDigit_hexDigit h]
  | more n h ih => simp [ofNat_of_ge h, ih, isDigit_hexDigit (Nat.mod_lt n (by omega : 0 < 10))]

theorem ofNat_ne_nil (n : Nat) : ofNat n ≠ [] := by
  induction n using digits_induction with
  | one d h => simp [ofNat_of_lt h]
  | more n h ih => simp [ofNat_of_ge h]

/-- Only zero is written with a zero in front. -/
theorem head_ofNat {n : Nat} (h : (ofNat n).head? = some (ascii '0')) : n = 0 := by
  induction n using digits_induction with
  | one d hd =>
    rw [ofNat_of_lt hd] at h
    exact hexDigit_eq_zero hd (Option.some.inj h)
  | more n hn ih =>
    have lead : (ofNat (n / 10)).head? = some (ascii '0') := by
      rw [ofNat_of_ge hn] at h
      cases he : ofNat (n / 10) with
      | nil => exact absurd he (ofNat_ne_nil _)
      | cons c cs => simpa [he] using h
    have := ih lead
    omega

theorem length_ofNat_of_head {n : Nat} (h : (ofNat n).head? = some (ascii '0')) : (ofNat n).length = 1 := by
  rw [head_ofNat h, ofNat_of_lt (by omega), List.length_singleton]

/-! ### Integers -/

theorem ofInt_cases (n : Int) :
    n < 0 ∧ ofInt n = ascii '-' :: ofNat n.natAbs ∨ 0 ≤ n ∧ ofInt n = ofNat n.natAbs := by
  rw [ofInt]
  split
  · exact .inl ⟨by assumption, rfl⟩
  · exact .inr ⟨by omega, rfl⟩

theorem minus_eq : ("-" : Bytes) = [ascii '-'] := rfl

/-- Digits do not start with a sign. -/
theorem startsWith_minus_ofNat (n : Nat) (rest : Bytes) : startsWith "-" (ofNat n ++ rest) = false := by
  have nonempty := ofNat_ne_nil n
  have digits := all_isDigit_ofNat n
  match ofNat n, nonempty, digits with
  | c :: cs, _, digits =>
    have digit : isDigit c = true := (List.all_eq_true.1 digits) c (by simp)
    have other : ascii '-' ≠ c := by rintro rfl; revert digit; decide
    simp [startsWith, minus_eq, List.isPrefixOf, other]

theorem startsWith_minus_cons (s : Bytes) : startsWith "-" (ascii '-' :: s) = true := by
  simp [startsWith, minus_eq]

theorem dropLead_ofNat_append (n : Nat) (rest : Bytes) : dropLead "-" (ofNat n ++ rest) = ofNat n ++ rest := by
  rw [dropLead, startsWith_minus_ofNat, if_neg (by decide)]

theorem dropLead_minus_cons (s : Bytes) : dropLead "-" (ascii '-' :: s) = s := by
  rw [dropLead, startsWith_minus_cons, if_pos rfl, minus_eq]
  rfl

end Bytes

end Stencil
