import Stencil.Text.Utf8

/-! # Characters and their bytes

Reading the bytes that were written for a character gives the character back, and a valid text is what
is written for its characters, one after the other. -/

namespace Stencil.Text.Utf8

/-! ### Bytes and numbers -/

theorem toNat_toUInt8 {n : Nat} (h : n < 256) : n.toUInt8.toNat = n := by
  rw [Nat.toUInt8, UInt8.toNat_ofNat', Nat.mod_eq_of_lt h]

theorem toUInt8_eq {n : Nat} {b : UInt8} (h : n = b.toNat) : n.toUInt8 = b := by
  rw [h]
  exact UInt8.ofNat_toNat

theorem isTail_iff (b : UInt8) : isTail b = true ↔ 0x80 ≤ b.toNat ∧ b.toNat ≤ 0xBF := by
  simp [isTail, UInt8.le_iff_toNat_le]

theorem isTail_toUInt8 (n : Nat) : isTail (0x80 + n % 64).toUInt8 = true := by
  rw [isTail_iff, toNat_toUInt8 (by omega)]
  omega

/-- The numbers of characters: within the bounds and no half of a pair. -/
theorem toNat_ofNat {n : Nat} (h : n < 0xD800 ∨ 0xDFFF < n ∧ n < 0x110000) : (Char.ofNat n).toNat = n := by
  rw [Char.ofNat, dif_pos h]
  rfl

/-! ### The four forms -/

section Forms

variable {b c d e : UInt8}

theorem first_one (hb : b.toNat < 0x80) (rest : Bytes) : first b rest = (.char (Char.ofNat b.toNat), 0) := by
  have low : b < 0x80 := UInt8.lt_iff_toNat_lt.2 hb
  unfold first
  rw [if_pos low]

theorem first_two (hb : 0xC2 ≤ b.toNat ∧ b.toNat ≤ 0xDF) (hc : isTail c = true) (more : Bytes) :
    first b (c :: more) = (.char (Char.ofNat ((b.toNat - 0xC0) * 64 + (c.toNat - 0x80))), 1) := by
  have low : ¬ b < 0x80 := by simp only [UInt8.lt_iff_toNat_lt, UInt8.reduceToNat]; omega
  have lead : 0xC2 ≤ b ∧ b ≤ 0xDF := by simpa [UInt8.le_iff_toNat_le] using hb
  simp only [first, low, lead, hc, if_false, and_self, if_true]

theorem first_three (hb : 0xE0 ≤ b.toNat ∧ b.toNat ≤ 0xEF) (hc : isTail c = true) (hd : isTail d = true)
    (least : b.toNat = 0xE0 → 0xA0 ≤ c.toNat) (most : b.toNat = 0xED → c.toNat ≤ 0x9F) (more : Bytes) :
    first b (c :: d :: more) =
      (.char (Char.ofNat (((b.toNat - 0xE0) * 64 + (c.toNat - 0x80)) * 64 + (d.toNat - 0x80))), 2) := by
  have low : ¬ b < 0x80 := by simp only [UInt8.lt_iff_toNat_lt, UInt8.reduceToNat]; omega
  have two : ¬ (0xC2 ≤ b ∧ b ≤ 0xDF) := by simp only [UInt8.le_iff_toNat_le, UInt8.reduceToNat]; omega
  have lead : 0xE0 ≤ b ∧ b ≤ 0xEF := by simpa [UInt8.le_iff_toNat_le] using hb
  have tails : isTail c = true ∧ isTail d = true ∧ (b = 0xE0 → 0xA0 ≤ c) ∧ (b = 0xED → c ≤ 0x9F) := by
    refine ⟨hc, hd, ?_, ?_⟩
    · simpa only [← UInt8.toNat_inj, UInt8.le_iff_toNat_le, UInt8.reduceToNat] using least
    · simpa only [← UInt8.toNat_inj, UInt8.le_iff_toNat_le, UInt8.reduceToNat] using most
  simp only [first, low, two, if_false]
  rw [if_pos lead, if_pos tails]

theorem first_four (hb : 0xF0 ≤ b.toNat ∧ b.toNat ≤ 0xF4) (hc : isTail c = true) (hd : isTail d = true)
    (he : isTail e = true) (least : b.toNat = 0xF0 → 0x90 ≤ c.toNat) (most : b.toNat = 0xF4 → c.toNat ≤ 0x8F)
    (more : Bytes) :
    first b (c :: d :: e :: more) =
      (.char (Char.ofNat ((((b.toNat - 0xF0) * 64 + (c.toNat - 0x80)) * 64 + (d.toNat - 0x80)) * 64
        + (e.toNat - 0x80))), 3) := by
  have low : ¬ b < 0x80 := by simp only [UInt8.lt_iff_toNat_lt, UInt8.reduceToNat]; omega
  have two : ¬ (0xC2 ≤ b ∧ b ≤ 0xDF) := by simp only [UInt8.le_iff_toNat_le, UInt8.reduceToNat]; omega
  have three : ¬ (0xE0 ≤ b ∧ b ≤ 0xEF) := by simp only [UInt8.le_iff_toNat_le, UInt8.reduceToNat]; omega
  have whole : 0xF0 ≤ b ∧ b ≤ 0xF4 ∧ isTail c = true ∧ isTail d = true ∧ isTail e = true ∧
      (b = 0xF0 → 0x90 ≤ c) ∧ (b = 0xF4 → c ≤ 0x8F) := by
    refine ⟨?_, ?_, hc, hd, he, ?_, ?_⟩
    · simpa only [UInt8.le_iff_toNat_le, UInt8.reduceToNat] using hb.1
    · simpa only [UInt8.le_iff_toNat_le, UInt8.reduceToNat] using hb.2
    · simpa only [← UInt8.toNat_inj, UInt8.le_iff_toNat_le, UInt8.reduceToNat] using least
    · simpa only [← UInt8.toNat_inj, UInt8.le_iff_toNat_le, UInt8.reduceToNat] using most
  simp only [first, low, two, three, if_false]
  rw [if_pos whole]

end Forms

/-! ### Reading what was written -/

/-- The character that was written is the first one read, and takes all its bytes. -/
theorem first_encodeChar (c : Char) :
    ∃ b tail, encodeChar c = b :: tail ∧ ∀ more, first b (tail ++ more) = (.char c, tail.length) := by
  have valid : c.toNat < 0xD800 ∨ 0xDFFF < c.toNat ∧ c.toNat < 0x110000 := c.valid
  have back : Char.ofNat c.toNat = c := Char.ofNat_toNat c
  generalize c.toNat = n at valid back
  subst back
  rw [encodeChar, toNat_ofNat valid]
  split
  · have lead : n.toUInt8.toNat = n := toNat_toUInt8 (by omega)
    refine ⟨_, [], rfl, fun more => ?_⟩
    rw [List.nil_append, first_one (by omega), lead, List.length_nil]
  split
  · have lead : (0xC0 + n / 64).toUInt8.toNat = 0xC0 + n / 64 := toNat_toUInt8 (by omega)
    have last : (0x80 + n % 64).toUInt8.toNat = 0x80 + n % 64 := toNat_toUInt8 (by omega)
    have number : (0xC0 + n / 64 - 0xC0) * 64 + (0x80 + n % 64 - 0x80) = n := by omega
    refine ⟨_, [_], rfl, fun more => ?_⟩
    rw [List.singleton_append, first_two (by omega) (isTail_toUInt8 n), lead, last, number, List.length_singleton]
  split
  · have lead : (0xE0 + n / 4096).toUInt8.toNat = 0xE0 + n / 4096 := toNat_toUInt8 (by omega)
    have middle : (0x80 + n / 64 % 64).toUInt8.toNat = 0x80 + n / 64 % 64 := toNat_toUInt8 (by omega)
    have last : (0x80 + n % 64).toUInt8.toNat = 0x80 + n % 64 := toNat_toUInt8 (by omega)
    have number : ((0xE0 + n / 4096 - 0xE0) * 64 + (0x80 + n / 64 % 64 - 0x80)) * 64 + (0x80 + n % 64 - 0x80) = n := by
      omega
    refine ⟨_, [_, _], rfl, fun more => ?_⟩
    rw [List.cons_append, List.singleton_append, first_three (by omega) (isTail_toUInt8 _) (isTail_toUInt8 n)
      (by omega) (by omega), lead, middle, last, number]
    rfl
  · have lead : (0xF0 + n / 262144).toUInt8.toNat = 0xF0 + n / 262144 := toNat_toUInt8 (by omega)
    have second : (0x80 + n / 4096 % 64).toUInt8.toNat = 0x80 + n / 4096 % 64 := toNat_toUInt8 (by omega)
    have third : (0x80 + n / 64 % 64).toUInt8.toNat = 0x80 + n / 64 % 64 := toNat_toUInt8 (by omega)
    have last : (0x80 + n % 64).toUInt8.toNat = 0x80 + n % 64 := toNat_toUInt8 (by omega)
    have number : (((0xF0 + n / 262144 - 0xF0) * 64 + (0x80 + n / 4096 % 64 - 0x80)) * 64
        + (0x80 + n / 64 % 64 - 0x80)) * 64 + (0x80 + n % 64 - 0x80) = n := by omega
    refine ⟨_, [_, _, _], rfl, fun more => ?_⟩
    rw [List.cons_append, List.cons_append, List.singleton_append, first_four (by omega) (isTail_toUInt8 _)
      (isTail_toUInt8 _) (isTail_toUInt8 n) (by omega) (by omega), lead, second, third, last, number]
    rfl

theorem decode_encodeChar_append (c : Char) (more : Bytes) :
    decode (encodeChar c ++ more) = .char c :: decode more := by
  obtain ⟨b, tail, written, read⟩ := first_encodeChar c
  rw [written, List.cons_append, decode, read, List.drop_left]

theorem decode_flatMap_encodeChar (cs : List Char) : decode (cs.flatMap encodeChar) = cs.map .char := by
  induction cs with
  | nil => rw [List.flatMap_nil, decode, List.map_nil]
  | cons c cs ih => rw [List.flatMap_cons, decode_encodeChar_append, ih, List.map_cons]

/-- ASCII is read byte by byte. -/
theorem isValid_of_ascii {s : Bytes} (h : s.all (· < 0x80) = true) : isValid s = true := by
  rw [isValid]
  induction s with
  | nil => rw [decode, List.all_nil]
  | cons b rest ih =>
    rw [List.all_cons, Bool.and_eq_true, decide_eq_true_eq] at h
    rw [decode, first_one (UInt8.lt_iff_toNat_lt.1 h.1), List.all_cons]
    exact ih h.2

/-! ### What is read was written -/

section Forms

variable {b c d e : UInt8}

theorem encodeChar_one (hb : b.toNat < 0x80) : encodeChar (Char.ofNat b.toNat) = [b] := by
  rw [encodeChar, toNat_ofNat (by omega), if_pos hb, toUInt8_eq rfl]

theorem encodeChar_two (hb : 0xC2 ≤ b.toNat ∧ b.toNat ≤ 0xDF) (hc : isTail c = true) :
    encodeChar (Char.ofNat ((b.toNat - 0xC0) * 64 + (c.toNat - 0x80))) = [b, c] := by
  rw [isTail_iff] at hc
  rw [encodeChar, toNat_ofNat (by omega), if_neg (by omega), if_pos (by omega), toUInt8_eq (b := b) (by omega),
    toUInt8_eq (b := c) (by omega)]

theorem encodeChar_three (hb : 0xE0 ≤ b.toNat ∧ b.toNat ≤ 0xEF) (hc : isTail c = true) (hd : isTail d = true)
    (least : b.toNat = 0xE0 → 0xA0 ≤ c.toNat) (most : b.toNat = 0xED → c.toNat ≤ 0x9F) :
    encodeChar (Char.ofNat (((b.toNat - 0xE0) * 64 + (c.toNat - 0x80)) * 64 + (d.toNat - 0x80))) = [b, c, d] := by
  rw [isTail_iff] at hc hd
  rw [encodeChar, toNat_ofNat (by omega), if_neg (by omega), if_neg (by omega), if_pos (by omega),
    toUInt8_eq (b := b) (by omega), toUInt8_eq (b := c) (by omega), toUInt8_eq (b := d) (by omega)]

theorem encodeChar_four (hb : 0xF0 ≤ b.toNat ∧ b.toNat ≤ 0xF4) (hc : isTail c = true) (hd : isTail d = true)
    (he : isTail e = true) (least : b.toNat = 0xF0 → 0x90 ≤ c.toNat) (most : b.toNat = 0xF4 → c.toNat ≤ 0x8F) :
    encodeChar (Char.ofNat ((((b.toNat - 0xF0) * 64 + (c.toNat - 0x80)) * 64 + (d.toNat - 0x80)) * 64
      + (e.toNat - 0x80))) = [b, c, d, e] := by
  rw [isTail_iff] at hc hd he
  rw [encodeChar, toNat_ofNat (by omega), if_neg (by omega), if_neg (by omega), if_neg (by omega),
    toUInt8_eq (b := b) (by omega), toUInt8_eq (b := c) (by omega), toUInt8_eq (b := d) (by omega),
    toUInt8_eq (b := e) (by omega)]

end Forms

/-- A character that is read stands there with its bytes. -/
theorem eq_encodeChar_of_first {b : UInt8} {rest : Bytes} {c : Char} {n : Nat} (h : first b rest = (.char c, n)) :
    b :: rest = encodeChar c ++ rest.drop n := by
  unfold first at h
  split at h
  case isTrue one =>
    obtain ⟨char, rfl⟩ := Prod.mk.inj h
    obtain rfl := Glyph.char.inj char
    rw [encodeChar_one (UInt8.lt_iff_toNat_lt.1 one)]
    rfl
  rcases rest with _ | ⟨x, more⟩
  · cases h
  dsimp only at h
  split at h
  case isTrue two =>
    split at h
    case isFalse => cases h
    case isTrue hx =>
      obtain ⟨char, rfl⟩ := Prod.mk.inj h
      obtain rfl := Glyph.char.inj char
      rw [encodeChar_two (by simpa [UInt8.le_iff_toNat_le] using two) hx]
      rfl
  rcases more with _ | ⟨y, last⟩
  · cases h
  dsimp only at h
  split at h
  case isTrue three =>
    split at h
    case isFalse => cases h
    case isTrue tails =>
      obtain ⟨hx, hy, least, most⟩ := tails
      obtain ⟨char, rfl⟩ := Prod.mk.inj h
      obtain rfl := Glyph.char.inj char
      rw [encodeChar_three (by simpa [UInt8.le_iff_toNat_le] using three) hx hy
        (by simpa [← UInt8.toNat_inj, UInt8.le_iff_toNat_le] using least)
        (by simpa [← UInt8.toNat_inj, UInt8.le_iff_toNat_le] using most)]
      rfl
  rcases last with _ | ⟨z, last⟩
  · cases h
  dsimp only at h
  split at h
  case isFalse => cases h
  case isTrue four =>
    obtain ⟨low, high, hx, hy, hz, least, most⟩ := four
    obtain ⟨char, rfl⟩ := Prod.mk.inj h
    obtain rfl := Glyph.char.inj char
    have lead : 0xF0 ≤ b.toNat ∧ b.toNat ≤ 0xF4 := by simpa [UInt8.le_iff_toNat_le] using And.intro low high
    rw [encodeChar_four lead hx hy hz
      (by simpa [← UInt8.toNat_inj, UInt8.le_iff_toNat_le] using least)
      (by simpa [← UInt8.toNat_inj, UInt8.le_iff_toNat_le] using most)]
    rfl

/-- A valid text is what is written for its characters. -/
theorem exists_flatMap_of_isValid {s : Bytes} (h : isValid s = true) :
    ∃ cs : List Char, s = cs.flatMap encodeChar := by
  rw [isValid] at h
  fun_induction decode s with
  | case1 => exact ⟨[], rfl⟩
  | case2 b rest ih =>
    rw [List.all_cons, Bool.and_eq_true] at h
    obtain ⟨cs, hcs⟩ := ih h.2
    match hfirst : first b rest with
    | (.stray _, _) => simp [hfirst] at h
    | (.char c, n) =>
      rw [hfirst] at hcs
      exact ⟨c :: cs, by rw [eq_encodeChar_of_first hfirst, hcs, List.flatMap_cons]⟩

end Stencil.Text.Utf8
