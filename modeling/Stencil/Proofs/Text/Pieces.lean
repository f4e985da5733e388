import Stencil.Text.Blank

/-! # Trimming and cutting

A text is its trimmed form between blanks, and a text that was cut is put together again from the
pieces and the separator. -/

namespace Stencil.Text

/-! ### Blanks -/

/-- One blank. -/
def isBlankUnit : Bytes → Bool
  | [a] => isAsciiBlank a
  | [a, b] => a == 0xC2 && (b == 0x85 || b == 0xA0)
  | [a, b, c] =>
    (a == 0xE2 && b == 0x80 && isPunctuationBlank c) || (a == 0xE1 && b == 0x9A && c == 0x80) ||
      (a == 0xE2 && b == 0x81 && c == 0x9F) || (a == 0xE3 && b == 0x80 && c == 0x80)
  | _ => false

theorem trimLeft_cases (s : Bytes) :
    trimLeft s = s ∨ ∃ u rest, isBlankUnit u = true ∧ s = u ++ rest ∧ trimLeft s = trimLeft rest := by
  match s with
  | [] => exact Or.inl rfl
  | [a] =>
    by_cases ha : isAsciiBlank a = true
    · exact Or.inr ⟨[a], [], ha, rfl, by simp [trimLeft, ha]⟩
    · exact Or.inl (by simp [trimLeft, ha])
  | [a, b] =>
    rw [trimLeft]
    split
    · rename_i ha
      exact Or.inr ⟨[a], [b], ha, rfl, rfl⟩
    split
    · rename_i hab
      exact Or.inr ⟨[a, b], [], by simpa [isBlankUnit] using hab, rfl, by simp [trimLeft]⟩
    · exact Or.inl rfl
  | a :: b :: c :: rest =>
    rw [trimLeft]
    split
    · rename_i ha
      exact Or.inr ⟨[a], b :: c :: rest, ha, rfl, rfl⟩
    split
    · rename_i hab
      exact Or.inr ⟨[a, b], c :: rest, by simpa [isBlankUnit] using hab, rfl, rfl⟩
    split
    · rename_i habc
      exact Or.inr ⟨[a, b, c], rest, by simp [isBlankUnit, habc], rfl, rfl⟩
    split
    · rename_i habc
      refine Or.inr ⟨[a, b, c], rest, ?_, rfl, rfl⟩
      rcases habc with ⟨rfl, rfl, rfl⟩ | ⟨rfl, rfl, rfl⟩ | ⟨rfl, rfl, rfl⟩ <;> rfl
    · exact Or.inl rfl

theorem trimLeft_unit_append {u : Bytes} (hu : isBlankUnit u = true) (s : Bytes) : trimLeft (u ++ s) = trimLeft s := by
  match u, hu with
  | [a], ha =>
    have ha : isAsciiBlank a = true := ha
    rcases s with _ | ⟨b, _ | ⟨c, s⟩⟩ <;> simp [trimLeft, ha]
  | [a, b], hab =>
    obtain ⟨rfl, hb⟩ : a = 0xC2 ∧ (b = 0x85 ∨ b = 0xA0) := by simpa [isBlankUnit] using hab
    rcases s with _ | ⟨c, s⟩ <;> simp [trimLeft, hb, isAsciiBlank]
  | [a, b, c], habc =>
    simp only [isBlankUnit, Bool.or_eq_true, Bool.and_eq_true, beq_iff_eq] at habc
    rcases habc with ((⟨⟨rfl, rfl⟩, hc⟩ | ⟨⟨rfl, rfl⟩, rfl⟩) | ⟨⟨rfl, rfl⟩, rfl⟩) | ⟨⟨rfl, rfl⟩, rfl⟩ <;>
      simp_all [trimLeft, isAsciiBlank]

theorem trimReversed_cases (s : Bytes) :
    trimReversed s = s ∨ ∃ u rest, isBlankUnit u.reverse = true ∧ s = u ++ rest ∧ trimReversed s = trimReversed rest := by
  match s with
  | [] => exact Or.inl rfl
  | [a] =>
    by_cases ha : isAsciiBlank a = true
    · exact Or.inr ⟨[a], [], ha, rfl, by simp [trimReversed, ha]⟩
    · exact Or.inl (by simp [trimReversed, ha])
  | [b, a] =>
    rw [trimReversed]
    split
    · rename_i hb
      exact Or.inr ⟨[b], [a], hb, rfl, rfl⟩
    split
    · rename_i hab
      exact Or.inr ⟨[b, a], [], by simpa [isBlankUnit] using hab, rfl, by simp [trimReversed]⟩
    · exact Or.inl rfl
  | c :: b :: a :: rest =>
    rw [trimReversed]
    split
    · rename_i hc
      exact Or.inr ⟨[c], b :: a :: rest, hc, rfl, rfl⟩
    split
    · rename_i hbc
      exact Or.inr ⟨[c, b], a :: rest, by simpa [isBlankUnit] using hbc, rfl, rfl⟩
    split
    · rename_i habc
      exact Or.inr ⟨[c, b, a], rest, by simp [isBlankUnit, habc], rfl, rfl⟩
    split
    · rename_i habc
      refine Or.inr ⟨[c, b, a], rest, ?_, rfl, rfl⟩
      rcases habc with ⟨rfl, rfl, rfl⟩ | ⟨rfl, rfl, rfl⟩ | ⟨rfl, rfl, rfl⟩ <;> rfl
    · exact Or.inl rfl

theorem length_pos_of_unit {u : Bytes} (hu : isBlankUnit u = true) : 0 < u.length := by
  cases u with
  | nil => cases hu
  | cons c u => exact Nat.succ_pos _

theorem length_lt_of_unit {s u rest : Bytes} (hu : isBlankUnit u = true) (hs : s = u ++ rest) :
    rest.length < s.length := by
  have := length_pos_of_unit hu
  rw [hs, List.length_append]
  omega

/-- What `trimLeft` takes away is blank. -/
theorem exists_trimLeft (s : Bytes) : ∃ a, isBlank a = true ∧ s = a ++ trimLeft s := by
  rcases trimLeft_cases s with h | ⟨u, rest, hu, hs, h⟩
  · exact ⟨[], rfl, h.symm⟩
  · have hshorter : rest.length < s.length := length_lt_of_unit hu hs
    obtain ⟨a, ha, hrest⟩ := exists_trimLeft rest
    refine ⟨u ++ a, ?_, ?_⟩
    · rw [isBlank, trimLeft_unit_append hu]
      exact ha
    · rw [h, List.append_assoc, ← hrest, hs]
termination_by s.length

theorem trimLeft_append {a : Bytes} (ha : isBlank a = true) (s : Bytes) : trimLeft (a ++ s) = trimLeft s := by
  rcases trimLeft_cases a with h | ⟨u, rest, hu, hs, h⟩
  · rw [show a = [] from h.symm.trans (beq_iff_eq.mp ha)]
    rfl
  · have hshorter : rest.length < a.length := length_lt_of_unit hu hs
    have hrest : isBlank rest = true := by
      rw [isBlank, ← h]
      exact ha
    rw [hs, List.append_assoc, trimLeft_unit_append hu, trimLeft_append hrest s]
termination_by a.length

theorem exists_trimReversed (s : Bytes) : ∃ b, isBlank b = true ∧ s = b.reverse ++ trimReversed s := by
  rcases trimReversed_cases s with h | ⟨u, rest, hu, hs, h⟩
  · exact ⟨[], rfl, h.symm⟩
  · have hshorter : rest.length < s.length := by
      have := length_pos_of_unit hu
      rw [hs, List.length_append]
      rw [List.length_reverse] at this
      omega
    obtain ⟨b, hb, hrest⟩ := exists_trimReversed rest
    refine ⟨b ++ u.reverse, ?_, ?_⟩
    · have hunit : trimLeft (u.reverse ++ []) = trimLeft [] := trimLeft_unit_append hu []
      rw [List.append_nil] at hunit
      rw [isBlank, trimLeft_append hb, hunit]
      rfl
    · rw [h, List.reverse_append, List.reverse_reverse, List.append_assoc, ← hrest, hs]
termination_by s.length

/-- What `trimRight` takes away is blank. -/
theorem exists_trimRight (s : Bytes) : ∃ b, isBlank b = true ∧ s = trimRight s ++ b := by
  obtain ⟨b, hb, h⟩ := exists_trimReversed s.reverse
  refine ⟨b, hb, ?_⟩
  have h := congrArg List.reverse h
  rwa [List.reverse_append, List.reverse_reverse, List.reverse_reverse] at h

/-- A text is its trimmed form between blanks. -/
theorem exists_trim (s : Bytes) : ∃ a b, isBlank a = true ∧ isBlank b = true ∧ s = a ++ trim s ++ b := by
  obtain ⟨a, ha, hleft⟩ := exists_trimLeft s
  obtain ⟨b, hb, hright⟩ := exists_trimRight (trimLeft s)
  refine ⟨a, b, ha, hb, ?_⟩
  rw [List.append_assoc, trim, ← hright, ← hleft]

theorem isBlank_append {a : Bytes} (ha : isBlank a = true) (b : Bytes) : isBlank (a ++ b) = isBlank b := by
  rw [isBlank, trimLeft_append ha]
  rfl

/-- A blank text is blanks one after another. -/
theorem exists_units {b : Bytes} (hb : isBlank b = true) :
    ∃ us : List Bytes, (∀ u ∈ us, isBlankUnit u = true) ∧ b = us.flatten := by
  rcases trimLeft_cases b with h | ⟨u, rest, hu, rfl, -⟩
  · exact ⟨[], nofun, h.symm.trans (beq_iff_eq.mp hb)⟩
  · have hshorter : rest.length < (u ++ rest).length := length_lt_of_unit hu rfl
    have hrest : isBlank rest = true := by
      rw [isBlank, trimLeft_unit_append hu] at hb
      exact hb
    obtain ⟨us, hus, heq⟩ := exists_units hrest
    exact ⟨u :: us, List.forall_mem_cons.mpr ⟨hu, hus⟩, by rw [List.flatten_cons, ← heq]⟩
termination_by b.length

theorem trimReversed_unit_append {u : Bytes} (hu : isBlankUnit u = true) (s : Bytes) :
    trimReversed (u.reverse ++ s) = trimReversed s := by
  match u, hu with
  | [a], ha =>
    have ha : isAsciiBlank a = true := ha
    rcases s with _ | ⟨b, _ | ⟨c, s⟩⟩ <;> simp [trimReversed, ha]
  | [a, b], hab =>
    obtain ⟨rfl, hb⟩ : a = 0xC2 ∧ (b = 0x85 ∨ b = 0xA0) := by simpa [isBlankUnit] using hab
    rcases hb with rfl | rfl <;> rcases s with _ | ⟨c, s⟩ <;> simp [trimReversed, isAsciiBlank]
  | [a, b, c], habc =>
    simp only [isBlankUnit, Bool.or_eq_true, Bool.and_eq_true, beq_iff_eq] at habc
    rcases habc with ((⟨⟨rfl, rfl⟩, hc⟩ | ⟨⟨rfl, rfl⟩, rfl⟩) | ⟨⟨rfl, rfl⟩, rfl⟩) | ⟨⟨rfl, rfl⟩, rfl⟩
    · have hascii : isAsciiBlank c = false := by
        simp only [isPunctuationBlank, isAsciiBlank] at hc ⊢
        grind
      simp [trimReversed, hascii, hc]
    · simp [trimReversed, isAsciiBlank]
    · simp [trimReversed, isAsciiBlank]
    · simp [trimReversed, isAsciiBlank]

theorem trimRight_append {b : Bytes} (hb : isBlank b = true) (s : Bytes) : trimRight (s ++ b) = trimRight s := by
  obtain ⟨us, hus, rfl⟩ := exists_units hb
  rw [trimRight, trimRight, List.reverse_append]
  congr 1
  clear hb
  induction us generalizing s with
  | nil => rfl
  | cons u us ih =>
    obtain ⟨hu, hus⟩ := List.forall_mem_cons.mp hus
    have h := ih (s ++ u) hus
    rw [List.flatten_cons, List.reverse_append, List.append_assoc, ← List.reverse_append, h, List.reverse_append,
      trimReversed_unit_append hu]

/-- A blank starts with an ASCII byte or with the lead of a character, and goes on with the tail of one. -/
theorem lead_of_unit {c : UInt8} {u : Bytes} (hu : isBlankUnit (c :: u) = true) : c < 0x80 ∨ 0xC0 ≤ c := by
  match u, hu with
  | [], hc =>
    simp only [isBlankUnit, isAsciiBlank] at hc
    grind
  | [b], hbc =>
    simp only [isBlankUnit] at hbc
    grind
  | [b, d], hbcd =>
    simp only [isBlankUnit] at hbcd
    grind

theorem tail_of_unit {c : UInt8} {s x : Bytes} (hs : s ≠ []) (hu : isBlankUnit (s ++ c :: x) = true) :
    0x80 ≤ c ∧ c < 0xC0 := by
  rcases s with _ | ⟨a, _ | ⟨b, _ | ⟨d, s⟩⟩⟩
  · exact absurd rfl hs
  · rcases x with _ | ⟨d, _ | ⟨e, x⟩⟩
    · simp only [List.cons_append, List.nil_append, isBlankUnit] at hu
      grind
    · simp only [List.cons_append, List.nil_append, isBlankUnit] at hu
      grind
    · simp [isBlankUnit] at hu
  · rcases x with _ | ⟨d, x⟩
    · simp only [List.cons_append, List.nil_append, isBlankUnit, isPunctuationBlank] at hu
      grind
    · simp [isBlankUnit] at hu
  · simp [isBlankUnit] at hu

/-- What is not blank at its front stays so when blanks follow. -/
theorem trimLeft_append_of_ne_nil {b : Bytes} (hb : isBlank b = true) {s : Bytes} (hs : trimLeft s = s) (hne : s ≠ []) :
    trimLeft (s ++ b) = s ++ b := by
  rcases trimLeft_cases (s ++ b) with h | ⟨u, rest, hu, hsplit, -⟩
  · exact h
  exfalso
  rcases List.append_eq_append_iff.mp hsplit with ⟨x, rfl, rfl⟩ | ⟨x, rfl, -⟩
  · cases x with
    | nil =>
      rw [List.append_nil] at hu
      have hunit := trimLeft_unit_append hu []
      rw [List.append_nil, hs] at hunit
      exact hne hunit
    | cons c x =>
      -- the tail of a blank is no lead of the next one
      have htail := tail_of_unit hne hu
      rcases trimLeft_cases ((c :: x) ++ rest) with h | ⟨v, rest', hv, hsplit', -⟩
      · exact List.cons_ne_nil c (x ++ rest) (h.symm.trans (beq_iff_eq.mp hb))
      · cases v with
        | nil => cases hv
        | cons d v =>
          obtain rfl : c = d := (List.cons_eq_cons.mp hsplit').1
          have hlead := lead_of_unit hv
          grind
  · rw [trimLeft_unit_append hu] at hs
    obtain ⟨a, -, hx⟩ := exists_trimLeft x
    have hlength := congrArg List.length hx
    have hpos := length_pos_of_unit hu
    rw [hs] at hlength
    simp only [List.length_append] at hlength
    omega

theorem trimLeft_trimLeft (s : Bytes) : trimLeft (trimLeft s) = trimLeft s := by
  obtain ⟨a, ha, h⟩ := exists_trimLeft s
  exact (trimLeft_append ha (trimLeft s)).symm.trans (congrArg trimLeft h.symm)

/-- Blanks around a text go away. -/
theorem trim_surrounded {a b : Bytes} (ha : isBlank a = true) (hb : isBlank b = true) (s : Bytes) :
    trim (a ++ s ++ b) = trim s := by
  obtain ⟨c, hc, hs⟩ := exists_trimLeft s
  have hfront : trimLeft (a ++ s ++ b) = trimLeft (trimLeft s ++ b) := by
    rw [List.append_assoc, trimLeft_append ha, hs, List.append_assoc, trimLeft_append hc, ← hs]
  rw [trim, hfront, trim]
  by_cases hne : trimLeft s = []
  · rw [hne, List.nil_append, show trimLeft b = [] from beq_iff_eq.mp hb]
  · rw [trimLeft_append_of_ne_nil hb (trimLeft_trimLeft s) hne, trimRight_append hb]

theorem isBlank_trim (s : Bytes) : isBlank (trim s) = isBlank s := by
  cases hs : isBlank s with
  | true =>
    rw [trim, show trimLeft s = [] from beq_iff_eq.mp hs]
    rfl
  | false =>
    rw [Bool.eq_false_iff]
    intro htrim
    obtain ⟨a, b, ha, hb, heq⟩ := exists_trim s
    rw [heq, List.append_assoc, isBlank_append ha, isBlank_append htrim, hb] at hs
    cases hs

/-- One space on each side of a trimmed text goes away. -/
theorem trim_padded {e : Bytes} (he : trim e = e) : trim (32 :: (e ++ [32])) = e :=
  (trim_surrounded (a := [32]) (b := [32]) rfl rfl e).trans he

/-- A byte that is an ASCII byte and no blank is in no blank. -/
theorem notMem_of_unit {c : UInt8} (hascii : c < 0x80) (hblank : isAsciiBlank c = false) {u : Bytes}
    (hu : isBlankUnit u = true) : c ∉ u := by
  match u, hu with
  | [a], ha =>
    rintro hc
    obtain rfl := List.mem_singleton.mp hc
    exact Bool.false_ne_true (hblank.symm.trans ha)
  | [a, b], hab =>
    simp only [isBlankUnit] at hab
    grind
  | [a, b, d], habd =>
    simp only [isBlankUnit, isPunctuationBlank] at habd
    grind

theorem notMem_of_blank {c : UInt8} (hascii : c < 0x80) (hblank : isAsciiBlank c = false) {b : Bytes}
    (hb : isBlank b = true) : c ∉ b := by
  obtain ⟨us, hus, rfl⟩ := exists_units hb
  rintro hc
  obtain ⟨u, hu, hcu⟩ := List.mem_flatten.mp hc
  exact notMem_of_unit hascii hblank (hus u hu) hcu

/-- Trimming keeps a text that starts and ends with the same ASCII byte, if that is no blank. -/
theorem trim_of_ends {c : UInt8} (hc : c < 0x80) (hc' : isAsciiBlank c = false) {s : Bytes}
    (hfirst : s.head? = some c) (hlast : s.getLast? = some c) : trim s = s := by
  have hleft : trimLeft s = s := by
    rcases trimLeft_cases s with h | ⟨u, rest, hu, rfl, -⟩
    · exact h
    · cases u with
      | nil => cases hu
      | cons a u =>
        obtain rfl : a = c := Option.some.inj hfirst
        exact absurd List.mem_cons_self (notMem_of_unit hc hc' hu)
  have hright : trimReversed s.reverse = s.reverse := by
    rcases trimReversed_cases s.reverse with h | ⟨u, rest, hu, hs, -⟩
    · exact h
    · cases u with
      | nil => cases hu
      | cons a u =>
        rw [← List.head?_reverse, hs] at hlast
        obtain rfl : a = c := Option.some.inj hlast
        exact absurd (List.mem_reverse.mpr List.mem_cons_self) (notMem_of_unit hc hc' hu)
  rw [trim, hleft, trimRight, hright, List.reverse_reverse]

end Stencil.Text

namespace Stencil.Bytes

/-- A text is put together again from what it was cut into. -/
theorem eq_of_cut {sep s a b : Bytes} (h : cut sep s = some (a, b)) : s = a ++ sep ++ b := by
  induction s generalizing a with
  | nil =>
    rw [cut] at h
    split at h
    · rename_i hsep
      cases h
      rw [hsep]
      rfl
    · cases h
  | cons c s ih =>
    rw [cut] at h
    split at h
    · rename_i hfront
      cases h
      exact (List.prefix_iff_eq_append.mp (List.isPrefixOf_iff_prefix.mp hfront)).symm
    · obtain ⟨⟨a', b'⟩, hcut, heq⟩ := Option.map_eq_some_iff.mp h
      cases heq
      rw [ih hcut]
      rfl

theorem cut_front {sep b : Bytes} (hsep : sep ≠ []) : cut sep (sep ++ b) = some ([], b) := by
  cases sep with
  | nil => exact absurd rfl hsep
  | cons c sep =>
    have hfront : (c :: sep).isPrefixOf (c :: (sep ++ b)) = true :=
      List.isPrefixOf_iff_prefix.mpr (List.prefix_append (c :: sep) b)
    rw [List.cons_append, cut, if_pos hfront, ← List.cons_append, List.drop_left]

theorem contains_iff {sep s : Bytes} : contains sep s = true ↔ sep <:+: s := by
  induction s with
  | nil =>
    rw [contains, cut]
    split <;> simp_all
  | cons c s ih =>
    rw [List.infix_cons_iff, ← ih, contains, cut, ← List.isPrefixOf_iff_prefix]
    split
    · simp_all
    · simp_all [contains]

theorem contains_cons {sep s : Bytes} {c : UInt8} (h : contains sep (c :: s) = false) :
    sep.isPrefixOf (c :: s) = false ∧ contains sep s = false := by
  rw [contains, cut] at h
  split at h
  · cases h
  · rename_i hfront
    exact ⟨Bool.eq_false_iff.mpr hfront, by simpa [contains] using h⟩

theorem not_isPrefixOf_cons {sep s : Bytes} {c : UInt8} (hsep : sep ≠ []) (hc : c ∉ sep) :
    ¬sep.isPrefixOf (c :: s) = true := by
  intro hfront
  obtain ⟨t, ht⟩ := List.isPrefixOf_iff_prefix.mp hfront
  cases sep with
  | nil => exact hsep rfl
  | cons d sep => exact hc ((List.cons_eq_cons.mp ht).1 ▸ List.mem_cons_self)

theorem contains_cons_of_not_mem {sep s : Bytes} {c : UInt8} (hsep : sep ≠ []) (hc : c ∉ sep)
    (h : contains sep s = false) : contains sep (c :: s) = false := by
  rw [contains, cut, if_neg (not_isPrefixOf_cons hsep hc)]
  simpa [contains] using h

/-- A text is cut where a separator comes first, after a byte that no separator has. -/
theorem cut_append {sep e b : Bytes} {c : UInt8} (hsep : sep ≠ []) (hc : c ∉ sep) (he : contains sep e = false) :
    cut sep (e ++ c :: (sep ++ b)) = some (e ++ [c], b) := by
  induction e with
  | nil =>
    rw [List.nil_append, cut, if_neg (not_isPrefixOf_cons hsep hc), cut_front hsep]
    rfl
  | cons d e ih =>
    obtain ⟨hfirst, hrest⟩ := contains_cons he
    have hfront : ¬sep.isPrefixOf (d :: (e ++ c :: (sep ++ b))) = true := by
      intro hfront
      obtain ⟨t, ht⟩ := List.isPrefixOf_iff_prefix.mp hfront
      have ht : sep ++ t = (d :: e) ++ c :: (sep ++ b) := ht
      -- the separator ends before the byte, or has it
      rcases List.append_eq_append_iff.mp ht with ⟨x, hx, -⟩ | ⟨x, hx, hx'⟩
      · rw [Bool.eq_false_iff] at hfirst
        exact hfirst (List.isPrefixOf_iff_prefix.mpr ⟨x, hx.symm⟩)
      · cases x with
        | nil =>
          rw [List.append_nil] at hx
          rw [Bool.eq_false_iff] at hfirst
          exact hfirst (List.isPrefixOf_iff_prefix.mpr ⟨[], by rw [hx, List.append_nil]⟩)
        | cons y x =>
          obtain ⟨rfl, -⟩ := List.cons_eq_cons.mp hx'
          exact hc (hx ▸ by simp)
    rw [List.cons_append, cut, if_neg hfront, ih hrest]
    rfl

end Stencil.Bytes
