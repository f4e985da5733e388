import Mathlib.Tactic.SplitIfs
import Stencil.Json.Fields
import Stencil.Proofs.Text.Decimals

/-! # JSON texts read back

The compact text of a tree is read as the tree it was written for, when its texts are valid and its
numbers are integers: every escape is undone, and every value ends where it was written to end. -/

namespace Stencil.Json
open Text Text.Utf8

/-! ### Strings -/

theorem hex4_hexPadded {n : Nat} (h : n < 0x10000) (rest : Bytes) : hex4 (hexPadded 4 n ++ rest) = some n := by
  have digit (m : Nat) : hexValue? (hexDigit (m % 16)) = some (m % 16) := hexValue_hexDigit (Nat.mod_lt _ (by omega))
  rw [hexPadded_four, hex4]
  simp only [List.cons_append, List.nil_append, List.take_succ_cons, List.take_zero, List.filterMap_cons, digit,
    List.filterMap_nil, List.length_cons, List.length_nil, Nat.reduceAdd, if_true, List.foldl_cons, List.foldl_nil,
    Option.some.injEq]
  omega

theorem length_hexPadded_four (n : Nat) : (hexPadded 4 n).length = 4 := by
  rw [hexPadded_four]
  rfl

/-- A character that is no half of a pair is read from its number. -/
theorem unicodeEscape_hexPadded {c : Char} (h : c.toNat < 0xD800) (rest : Bytes) :
    unicodeEscape (hexPadded 4 c.toNat ++ rest) = some (encodeChar c, 4) := by
  have number : hex4 (hexPadded 4 c.toNat ++ rest) = some c.toNat := hex4_hexPadded (by omega) rest
  simp [unicodeEscape, number, Nat.not_le.2 h]

/-- A byte that stands for itself in a string. -/
theorem stringBody_plain {b : UInt8} {tail : Bytes} {c : Char} (quote : b ≠ ascii '"') (control : ¬ b < 0x20)
    (slash : b ≠ ascii '\\') (out more : Bytes) (read : first b (tail ++ more) = (.char c, tail.length)) :
    stringBody out (b :: (tail ++ more)) = stringBody ((encodeChar c).reverse ++ out) more := by
  rw [stringBody.eq_def]
  simp only [quote, control, slash, if_false, read, charOf, List.drop_left]

/-- What is read after a backslash. -/
theorem stringBody_escape {d : UInt8} {bytes more : Bytes} (skipped out : Bytes)
    (h : escapeAt d (skipped ++ more) = some (bytes, skipped.length)) :
    stringBody out (ascii '\\' :: d :: (skipped ++ more)) = stringBody (bytes.reverse ++ out) more := by
  rw [stringBody, if_neg (by decide), if_neg (by decide), if_pos rfl]
  simp only [h, List.drop_left]

theorem escapeAt_u {c : Char} (h : c.toNat < 0xD800) (rest : Bytes) :
    escapeAt (ascii 'u') (hexPadded 4 c.toNat ++ rest) = some (encodeChar c, (hexPadded 4 c.toNat).length) := by
  rw [length_hexPadded_four, ← unicodeEscape_hexPadded h rest]
  simp only [escapeAt, ascii, Char.reduceToNat, Nat.toUInt8, UInt8.reduceOfNat]
  rfl

/-- The characters that are written by their number have numbers of four digits, below the halves of
pairs. -/
theorem toNat_lt_of_numbered {c : Char}
    (h : c.toNat < 0x20 ∨ c = '<' ∨ c = '>' ∨ c = '&' ∨ c.toNat = 0x2028 ∨ c.toNat = 0x2029) : c.toNat < 0xD800 := by
  rcases h with h | rfl | rfl | rfl | h | h <;> first | omega | decide

/-- A character beyond ASCII is written in bytes beyond ASCII. -/
theorem lead_encodeChar {c : Char} {b : UInt8} {tail : Bytes} (h : encodeChar c = b :: tail) :
    b.toNat = c.toNat ∨ 0x80 ≤ b.toNat := by
  have bound : c.toNat < 0x110000 := by rcases c.valid with h | h <;> simp only [Char.toNat] <;> omega
  simp only [encodeChar] at h
  split_ifs at h with one two three
  · exact .inl (by rw [← (List.cons.inj h).1, toNat_toUInt8 (by omega)])
  all_goals exact .inr (by rw [← (List.cons.inj h).1, toNat_toUInt8 (by omega)]; omega)

/-- A character with an escape of its own. -/
theorem stringBody_named {c : Char} {d : UInt8} (hd : ∀ rest, escapeAt d rest = some (encodeChar c, 0))
    (out rest : Bytes) :
    stringBody out (ascii '\\' :: d :: rest) = stringBody ((encodeChar c).reverse ++ out) rest :=
  stringBody_escape [] out (hd rest)

/-- Whatever is written for a character is read as the character. -/
theorem stringBody_escapeGlyph (c : Char) (out rest : Bytes) :
    stringBody out (escapeGlyph (.char c) ++ rest) = stringBody ((encodeChar c).reverse ++ out) rest := by
  have back {n : Nat} (h : c.toNat = n) : c = Char.ofNat n := by rw [← h, Char.ofNat_toNat]
  have two {c : Char} {text : String} (d : Char) (ht : (text : Bytes) = [ascii '\\', ascii d])
      (hd : ∀ rest, escapeAt (ascii d) rest = some (encodeChar c, 0)) :
      stringBody out ((text : Bytes) ++ rest) = stringBody ((encodeChar c).reverse ++ out) rest := by
    rw [ht]
    exact stringBody_named hd out rest
  simp only [escapeGlyph]
  split_ifs with quoted n8 n9 n10 n12 n13 numbered
  · rcases quoted with rfl | rfl <;> exact stringBody_named (fun _ => rfl) out rest
  · rw [back n8]
    exact two 'b' rfl fun _ => rfl
  · rw [back n9]
    exact two 't' rfl fun _ => rfl
  · rw [back n10]
    exact two 'n' rfl fun _ => rfl
  · rw [back n12]
    exact two 'f' rfl fun _ => rfl
  · rw [back n13]
    exact two 'r' rfl fun _ => rfl
  · have lead : ("\\u" : Bytes) = [ascii '\\', ascii 'u'] := rfl
    rw [lead]
    exact stringBody_escape _ out (escapeAt_u (toNat_lt_of_numbered numbered) rest)
  · obtain ⟨b, tail, written, read⟩ := first_encodeChar c
    rw [written, List.cons_append, ← written]
    have other {d : Char} (hd : d.toNat < 0x80) (hc : c ≠ d) : b ≠ ascii d := by
      rintro rfl
      have number : (ascii d).toNat = d.toNat := toNat_toUInt8 (by omega)
      rcases lead_encodeChar written with lead | lead
      · exact hc (by rw [← Char.ofNat_toNat c, ← lead, number, Char.ofNat_toNat])
      · omega
    have control : ¬ b < 0x20 := by
      have low : ¬ c.toNat < 0x20 := fun h => numbered (.inl h)
      have number : (0x20 : UInt8).toNat = 0x20 := rfl
      rw [UInt8.lt_iff_toNat_lt]
      rcases lead_encodeChar written with lead | lead <;> omega
    obtain ⟨noQuote, noSlash⟩ := not_or.1 quoted
    exact stringBody_plain (other (by decide) noQuote) control (other (by decide) noSlash) out rest (read rest)

/-- A valid string is read back, with all that follows it left. -/
theorem stringBody_quote {s : Bytes} (valid : isValid s = true) (rest : Bytes) :
    stringBody [] ((decode s).flatMap escapeGlyph ++ ascii '"' :: rest) = some (s, rest) := by
  obtain ⟨cs, rfl⟩ := exists_flatMap_of_isValid valid
  have chars (out : Bytes) (cs : List Char) :
      stringBody out ((cs.map Glyph.char).flatMap escapeGlyph ++ ascii '"' :: rest) =
        some (out.reverse ++ cs.flatMap encodeChar, rest) := by
    induction cs generalizing out with
    | nil =>
      rw [List.map_nil, List.flatMap_nil, List.nil_append, stringBody.eq_def]
      simp
    | cons c cs ih =>
      rw [List.map_cons, List.flatMap_cons, List.append_assoc, stringBody_escapeGlyph, ih, List.flatMap_cons,
        List.reverse_append, List.reverse_reverse, List.append_assoc]
  rw [decode_flatMap_encodeChar, chars, List.reverse_nil, List.nil_append]

/-! ### Numbers -/

/-- Nothing that would go on with a number: neither a digit nor a point nor an exponent. -/
def Stops (rest : Bytes) : Prop :=
  ∀ c ∈ rest.head?, isDigit c = false ∧ c ≠ ascii '.' ∧ c ≠ ascii 'e' ∧ c ≠ ascii 'E'

theorem Stops.takeWhile {rest : Bytes} (h : Stops rest) {ds : Bytes} (digits : ds.all isDigit = true) :
    (ds ++ rest).takeWhile isDigit = ds ∧ (ds ++ rest).dropWhile isDigit = rest := by
  rw [List.all_eq_true] at digits
  rw [List.takeWhile_append_of_pos digits, List.dropWhile_append_of_pos digits]
  match rest, h with
  | [], _ => simp
  | c :: cs, h =>
    obtain ⟨other, -⟩ := h c rfl
    simp [other]

/-- The digits of a number are read as one number. -/
theorem numberText_ofInt (n : Int) {rest : Bytes} (h : Stops rest) :
    numberText (Bytes.ofInt n ++ rest) = some (Bytes.ofInt n, rest) := by
  have body : Bytes.dropLead "-" (Bytes.ofInt n ++ rest) = Bytes.ofNat n.natAbs ++ rest := by
    rcases Bytes.ofInt_cases n with ⟨-, e⟩ | ⟨-, e⟩
    · rw [e, List.cons_append, Bytes.dropLead_minus_cons]
    · rw [e, Bytes.dropLead_ofNat_append]
  obtain ⟨whole, after⟩ := h.takeWhile (Bytes.all_isDigit_ofNat n.natAbs)
  have shape : ¬ (Bytes.ofNat n.natAbs = [] ∨
      (1 < (Bytes.ofNat n.natAbs).length ∧ (Bytes.ofNat n.natAbs).head? = some (ascii '0'))) := by
    rintro (none | ⟨long, zero⟩)
    · exact Bytes.ofNat_ne_nil _ none
    · have := Bytes.length_ofNat_of_head zero
      omega
  rw [numberText]
  simp only [body, whole, after, if_neg shape]
  match rest, h with
  | [], _ => simp
  | c :: cs, h =>
    obtain ⟨-, point, lower, upper⟩ := h c rfl
    simp [point, lower, upper]

/-- An integer of 64 bits is read back from its number. -/
theorem int64?_ofInt {n : Int} (low : -(wordLimit : Int) ≤ n) (high : n < wordLimit) :
    int64? (Bytes.ofInt n) = some n := by
  have digits := Bytes.all_isDigit_ofNat n.natAbs
  have nonempty := Bytes.ofNat_ne_nil n.natAbs
  rcases Bytes.ofInt_cases n with ⟨sign, e⟩ | ⟨sign, e⟩
  · simp only [int64?, e, Bytes.startsWith_minus_cons, Bytes.dropLead_minus_cons, Bytes.natOfDigits_ofNat]
    rw [if_pos ⟨nonempty, digits⟩, if_pos trivial, if_pos (by omega)]
    congr 1
    omega
  · have positive := Bytes.startsWith_minus_ofNat n.natAbs []
    have body := Bytes.dropLead_ofNat_append n.natAbs []
    rw [List.append_nil] at positive body
    simp only [int64?, e, positive, body, Bytes.natOfDigits_ofNat]
    rw [if_pos ⟨nonempty, digits⟩, if_neg Bool.false_ne_true, if_pos (by omega)]
    congr 1
    omega

/-! ### Trees -/

/-- Valid texts, and integers for numbers. -/
inductive Plain : Json → Prop
  | null : Plain .null
  | bool (b : Bool) : Plain (.bool b)
  | int (n : Int) : Plain (.ofInt n)
  | string {s : Bytes} (valid : isValid s = true) : Plain (.string s)
  | array {items : List Json} (each : ∀ j ∈ items, Plain j) : Plain (.array items)
  | object {members : List (Bytes × Json)} (names : ∀ m ∈ members, isValid m.1 = true)
      (each : ∀ m ∈ members, Plain m.2) : Plain (.object members)

/-- The tree is read from its text, and what follows is left. -/
def ReadsBack (j : Json) : Prop :=
  ∀ (fuel : Nat) (rest : Bytes), 2 * (compact j).length < fuel → Stops rest →
    valueAt fuel (compact j ++ rest) = some (j, rest)

theorem stops_cons {c : UInt8} (h : c = ascii ',' ∨ c = ascii ']' ∨ c = closeBrace) (rest : Bytes) :
    Stops (c :: rest) := by
  intro d hd
  obtain rfl : c = d := by simpa using hd
  rcases h with rfl | rfl | rfl <;> decide

theorem stops_nil : Stops [] := by
  intro c h
  cases h

theorem skipSpace_cons {c : UInt8} (h : isSpace c = false) (cs : Bytes) : skipSpace (c :: cs) = c :: cs := by
  simp [skipSpace, h]

theorem quote_eq (s rest : Bytes) :
    quote s ++ rest = ascii '"' :: ((decode s).flatMap escapeGlyph ++ ascii '"' :: rest) := by
  simp [quote]

/-- A digit or a sign. -/
theorem exists_lead_ofInt (n : Int) : ∃ c cs, Bytes.ofInt n = c :: cs ∧ (c = ascii '-' ∨ isDigit c = true) := by
  rcases Bytes.ofInt_cases n with ⟨-, e⟩ | ⟨-, e⟩
  · exact ⟨_, _, e, .inl rfl⟩
  · have nonempty := Bytes.ofNat_ne_nil n.natAbs
    have digits := Bytes.all_isDigit_ofNat n.natAbs
    match h : Bytes.ofNat n.natAbs with
    | [] => exact absurd h nonempty
    | c :: cs =>
      rw [h] at digits
      exact ⟨c, cs, e.trans h, .inr (List.all_eq_true.1 digits c (by simp))⟩

theorem valueAt_number {c : UInt8} (h : c = ascii '-' ∨ isDigit c = true) (fuel : Nat) (cs : Bytes) :
    valueAt (fuel + 1) (c :: cs) = (numberText (c :: cs)).map fun r => (.number r.1, r.2) := by
  have other {d : UInt8} (hd : ¬ (d = ascii '-' ∨ isDigit d = true)) : c ≠ d := by
    rintro rfl
    exact hd h
  have space : isSpace c = false := by
    simp only [isSpace, Bool.or_eq_false_iff, beq_eq_false_iff_ne]
    exact ⟨⟨⟨other (by decide), other (by decide)⟩, other (by decide)⟩, other (by decide)⟩
  have noWord {word : String} {d : UInt8} {ds : Bytes} (hw : (word : Bytes) = d :: ds)
      (hd : ¬ (d = ascii '-' ∨ isDigit d = true)) : Bytes.startsWith word (c :: cs) = false := by
    simp [Bytes.startsWith, hw, List.isPrefixOf, (other hd).symm]
  have noTrue := noWord (rfl : ("true" : Bytes) = 116 :: [114, 117, 101]) (by decide)
  have noFalse := noWord (rfl : ("false" : Bytes) = 102 :: [97, 108, 115, 101]) (by decide)
  have noNull := noWord (rfl : ("null" : Bytes) = 110 :: [117, 108, 108]) (by decide)
  have quote : c ≠ ascii '"' := other (by decide)
  have bracket : c ≠ ascii '[' := other (by decide)
  have brace : c ≠ openBrace := other (by decide)
  rw [valueAt, skipSpace_cons space]
  simp only [quote, bracket, brace, noTrue, noFalse, noNull, if_false, Bool.false_eq_true]

theorem readsBack_ofInt (n : Int) : ReadsBack (.ofInt n) := by
  intro fuel rest enough stops
  obtain ⟨fuel, rfl⟩ := Nat.exists_eq_succ_of_ne_zero (Nat.ne_zero_of_lt enough)
  obtain ⟨c, cs, written, lead⟩ := exists_lead_ofInt n
  have read := numberText_ofInt n stops
  rw [ofInt, compact, written, List.cons_append, Nat.succ_eq_add_one, valueAt_number lead, ← List.cons_append,
    ← written, read]
  rfl

theorem readsBack_string {s : Bytes} (valid : isValid s = true) : ReadsBack (.string s) := by
  intro fuel rest enough _
  obtain ⟨fuel, rfl⟩ := Nat.exists_eq_succ_of_ne_zero (Nat.ne_zero_of_lt enough)
  rw [compact, quote_eq, Nat.succ_eq_add_one, valueAt, skipSpace_cons (by decide)]
  simp only [if_true, stringBody_quote valid, Option.map_some]

theorem readsBack_null : ReadsBack .null := by
  intro fuel rest enough _
  obtain ⟨fuel, rfl⟩ := Nat.exists_eq_succ_of_ne_zero (Nat.ne_zero_of_lt enough)
  have word : ("null" : Bytes) = [110, 117, 108, 108] := rfl
  rw [compact, word]
  rfl

theorem readsBack_bool (b : Bool) : ReadsBack (.bool b) := by
  intro fuel rest enough _
  obtain ⟨fuel, rfl⟩ := Nat.exists_eq_succ_of_ne_zero (Nat.ne_zero_of_lt enough)
  cases b with
  | true =>
    have word : ("true" : Bytes) = [116, 114, 117, 101] := rfl
    rw [compact, Bytes.ofBool, if_pos rfl, word]
    rfl
  | false =>
    have word : ("false" : Bytes) = [102, 97, 108, 115, 101] := rfl
    rw [compact, Bytes.ofBool, if_neg Bool.false_ne_true, word]
    rfl

/-! ### Lists of values and of members -/

theorem compactList_eq (items : List Json) : compactList items = items.map compact := by
  induction items with
  | nil => rw [compactList, List.map_nil]
  | cons j js ih => rw [compactList, ih, List.map_cons]

/-- The text of a member. -/
def memberText (m : Bytes × Json) : Bytes := quote m.1 ++ ":" ++ compact m.2

theorem compactMembers_eq (members : List (Bytes × Json)) : compactMembers members = members.map memberText := by
  induction members with
  | nil => rw [compactMembers, List.map_nil]
  | cons m ms ih => rw [compactMembers, ih, List.map_cons, memberText]

theorem join_singleton (sep part : Bytes) : Bytes.join sep [part] = part := by
  simp [Bytes.join]

theorem comma_eq : ("," : Bytes) = [ascii ','] := rfl

theorem join_comma (part next : Bytes) (parts : List Bytes) :
    Bytes.join "," (part :: next :: parts) = part ++ ascii ',' :: Bytes.join "," (next :: parts) := by
  simp [Bytes.join, List.intercalate, comma_eq]

theorem itemsAt_join {items : List Json} (nonempty : items ≠ []) (each : ∀ j ∈ items, ReadsBack j) (fuel : Nat)
    (done : List Json) (rest : Bytes) (enough : 2 * (Bytes.join "," (items.map compact)).length + 2 ≤ fuel) :
    itemsAt fuel done (Bytes.join "," (items.map compact) ++ ascii ']' :: rest) =
      some (.array (done.reverse ++ items), rest) := by
  induction items generalizing fuel done with
  | nil => exact absurd rfl nonempty
  | cons item more ih =>
    obtain ⟨fuel, rfl⟩ : ∃ f, fuel = f + 1 := ⟨fuel - 1, by omega⟩
    have first : ReadsBack item := each item (by simp)
    cases more with
    | nil =>
      rw [List.map_singleton, join_singleton] at enough ⊢
      have read := first fuel (ascii ']' :: rest) (by omega) (stops_cons (by decide) rest)
      have other : ascii ']' ≠ ascii ',' := by decide
      rw [itemsAt, read]
      simp only [Option.bind_eq_bind, Option.bind_some, skipSpace_cons (c := ascii ']') (by decide), other, if_false,
        if_true, List.reverse_cons]
    | cons next more =>
      rw [List.map_cons, List.map_cons, join_comma, ← List.map_cons] at enough ⊢
      rw [List.length_append, List.length_cons] at enough
      have read := first fuel (ascii ',' :: (Bytes.join "," ((next :: more).map compact) ++ ascii ']' :: rest))
        (by omega) (stops_cons (by decide) _)
      have after :=
        ih (by simp) (fun j hj => each j (List.mem_cons_of_mem _ hj)) fuel (item :: done) (by omega)
      rw [List.append_assoc, List.cons_append, itemsAt, read]
      simp only [Option.bind_eq_bind, Option.bind_some, skipSpace_cons (c := ascii ',') (by decide), if_true, after,
        List.reverse_cons, List.append_assoc, List.singleton_append]

/-- The name and the value of one member, and what comes after it. -/
theorem membersAt_memberText {m : Bytes × Json} (name : isValid m.1 = true) (value : ReadsBack m.2) {fuel : Nat}
    (done : List (Bytes × Json)) {c : UInt8} (cs : Bytes) (enough : 2 * (memberText m).length ≤ fuel)
    (stops : Stops (c :: cs)) (space : isSpace c = false) :
    membersAt (fuel + 1) done (memberText m ++ c :: cs) =
      if c = ascii ',' then membersAt fuel (m :: done) cs
      else if c = closeBrace then some (.object (m :: done).reverse, cs)
      else none := by
  have colon : (":" : Bytes) = [ascii ':'] := rfl
  have shorter : 2 * (compact m.2).length < fuel := by
    simp only [memberText, colon, List.length_append, List.length_singleton] at enough
    omega
  have read := value fuel (c :: cs) shorter stops
  have split : memberText m ++ c :: cs =
      ascii '"' :: ((decode m.1).flatMap escapeGlyph ++ ascii '"' :: (ascii ':' :: (compact m.2 ++ c :: cs))) := by
    rw [memberText, List.append_assoc, List.append_assoc, quote_eq, colon]
    rfl
  rw [split, membersAt, skipSpace_cons (by decide)]
  simp only [if_true, stringBody_quote name, Option.bind_eq_bind, Option.bind_some,
    skipSpace_cons (c := ascii ':') (by decide), read, skipSpace_cons space]

theorem membersAt_join {members : List (Bytes × Json)} (nonempty : members ≠ [])
    (names : ∀ m ∈ members, isValid m.1 = true) (each : ∀ m ∈ members, ReadsBack m.2) (fuel : Nat)
    (done : List (Bytes × Json)) (rest : Bytes)
    (enough : 2 * (Bytes.join "," (members.map memberText)).length + 2 ≤ fuel) :
    membersAt fuel done (Bytes.join "," (members.map memberText) ++ closeBrace :: rest) =
      some (.object (done.reverse ++ members), rest) := by
  induction members generalizing fuel done with
  | nil => exact absurd rfl nonempty
  | cons m more ih =>
    obtain ⟨fuel, rfl⟩ : ∃ f, fuel = f + 1 := ⟨fuel - 1, by omega⟩
    have name : isValid m.1 = true := names m (by simp)
    have value : ReadsBack m.2 := each m (by simp)
    cases more with
    | nil =>
      rw [List.map_singleton, join_singleton] at enough ⊢
      have other : closeBrace ≠ ascii ',' := by decide
      rw [membersAt_memberText name value done rest (by omega) (stops_cons (by decide) rest) (by decide)]
      simp only [other, if_false, if_true, List.reverse_cons]
    | cons next more =>
      rw [List.map_cons, List.map_cons, join_comma, ← List.map_cons] at enough ⊢
      rw [List.length_append, List.length_cons] at enough
      have after := ih (by simp) (fun m hm => names m (List.mem_cons_of_mem _ hm))
        (fun m hm => each m (List.mem_cons_of_mem _ hm)) fuel (m :: done) (by omega)
      rw [List.append_assoc, List.cons_append, membersAt_memberText name value done _ (by omega)
        (stops_cons (by decide) _) (by decide)]
      simp only [if_true, after, List.reverse_cons, List.append_assoc, List.singleton_append]

/-! ### Arrays and objects -/

/-- The text of a value starts with a byte that is neither a blank nor the end of an array. -/
theorem Plain.exists_lead {j : Json} (plain : Plain j) :
    ∃ c cs, compact j = c :: cs ∧ isSpace c = false ∧ c ≠ ascii ']' := by
  cases plain with
  | null => exact ⟨110, [117, 108, 108], by rw [compact]; rfl, by decide, by decide⟩
  | bool b =>
    cases b with
    | true => exact ⟨116, [114, 117, 101], by rw [compact]; rfl, by decide, by decide⟩
    | false => exact ⟨102, [97, 108, 115, 101], by rw [compact]; rfl, by decide, by decide⟩
  | int n =>
    obtain ⟨c, cs, written, lead⟩ := exists_lead_ofInt n
    refine ⟨c, cs, by rw [ofInt, compact, written], ?_, ?_⟩
    · rcases lead with rfl | digit
      · decide
      · cases space : isSpace c with
        | false => rfl
        | true =>
          simp only [isSpace, Bool.or_eq_true, beq_iff_eq] at space
          rcases space with ((rfl | rfl) | rfl) | rfl <;> revert digit <;> decide
    · rintro rfl
      revert lead
      decide
  | string valid => exact ⟨ascii '"', _, by rw [compact, quote, List.cons_append], by decide, by decide⟩
  | array _ =>
    have bracket : ("[" : Bytes) = [ascii '['] := rfl
    exact ⟨ascii '[', _, by rw [compact, bracket, List.append_assoc, List.singleton_append], by decide, by decide⟩
  | object _ _ => exact ⟨openBrace, _, by rw [compact, List.cons_append], by decide, by decide⟩

theorem exists_lead_join {part : Bytes} {c : UInt8} {cs : Bytes} (h : part = c :: cs) (parts : List Bytes) :
    ∃ more, Bytes.join "," (part :: parts) = c :: more := by
  cases parts with
  | nil => exact ⟨cs, by rw [join_singleton, h]⟩
  | cons next parts => exact ⟨_, by rw [join_comma, h, List.cons_append]⟩

theorem join_nil (sep : Bytes) : Bytes.join sep [] = [] := rfl

theorem readsBack_array {items : List Json} (plain : ∀ j ∈ items, Plain j) (each : ∀ j ∈ items, ReadsBack j) :
    ReadsBack (.array items) := by
  intro fuel rest enough _
  obtain ⟨fuel, rfl⟩ := Nat.exists_eq_succ_of_ne_zero (Nat.ne_zero_of_lt enough)
  have opening : ("[" : Bytes) = [ascii '['] := rfl
  have closing : ("]" : Bytes) = [ascii ']'] := rfl
  rw [compact, compactList_eq, opening, closing] at enough ⊢
  simp only [List.length_append, List.length_singleton] at enough
  simp only [List.append_assoc, List.cons_append, List.nil_append, Nat.succ_eq_add_one]
  rw [valueAt, skipSpace_cons (by decide)]
  have noQuote : ascii '[' ≠ ascii '"' := by decide
  simp only [noQuote, if_false, if_true]
  cases items with
  | nil =>
    rw [List.map_nil, join_nil, List.nil_append, skipSpace_cons (by decide)]
    simp only [if_true]
  | cons item more =>
    obtain ⟨c, cs, written, noSpace, noEnd⟩ := (plain item (by simp)).exists_lead
    obtain ⟨tail, lead⟩ := exists_lead_join written (more.map compact)
    have read := itemsAt_join (by simp) each fuel [] rest (by omega)
    rw [List.map_cons, lead, List.cons_append] at read ⊢
    rw [skipSpace_cons noSpace]
    simp only [noEnd, if_false, read, List.reverse_nil, List.nil_append]

theorem readsBack_object {members : List (Bytes × Json)} (names : ∀ m ∈ members, isValid m.1 = true)
    (each : ∀ m ∈ members, ReadsBack m.2) : ReadsBack (.object members) := by
  intro fuel rest enough _
  obtain ⟨fuel, rfl⟩ := Nat.exists_eq_succ_of_ne_zero (Nat.ne_zero_of_lt enough)
  rw [compact, compactMembers_eq] at enough ⊢
  simp only [List.length_append, List.length_cons, List.length_nil] at enough
  simp only [List.append_assoc, List.cons_append, List.nil_append, Nat.succ_eq_add_one]
  rw [valueAt, skipSpace_cons (by decide)]
  have noQuote : openBrace ≠ ascii '"' := by decide
  have noBracket : openBrace ≠ ascii '[' := by decide
  simp only [noQuote, noBracket, if_false, if_true]
  cases members with
  | nil =>
    rw [List.map_nil, join_nil, List.nil_append, skipSpace_cons (by decide)]
    simp only [if_true]
  | cons m more =>
    have written : memberText m =
        ascii '"' :: ((decode m.1).flatMap escapeGlyph ++ ascii '"' :: (":" ++ compact m.2)) := by
      rw [memberText, List.append_assoc, quote_eq]
    obtain ⟨tail, lead⟩ := exists_lead_join written (more.map memberText)
    have read := membersAt_join (by simp) names each fuel [] rest (by omega)
    have noEnd : ascii '"' ≠ closeBrace := by decide
    rw [List.map_cons, lead, List.cons_append] at read ⊢
    rw [skipSpace_cons (by decide)]
    simp only [noEnd, if_false, read, List.reverse_nil, List.nil_append]

/-- Every value ends where its text ends, and so does everything inside it. -/
theorem Plain.readsBack {j : Json} (plain : Plain j) : ReadsBack j := by
  induction plain with
  | null => exact readsBack_null
  | bool b => exact readsBack_bool b
  | int n => exact readsBack_ofInt n
  | string valid => exact readsBack_string valid
  | array each ih => exact readsBack_array each ih
  | object names _ ih => exact readsBack_object names ih

/-- The text of a tree is read as the tree. -/
theorem parse_compact {j : Json} (plain : Plain j) (shallow : j.height ≤ maxHeight) : parse (compact j) = some j := by
  have read := plain.readsBack (2 * (compact j).length + 2) [] (by omega) stops_nil
  rw [List.append_nil] at read
  rw [parse, read]
  exact if_pos ⟨rfl, shallow⟩

end Stencil.Json
