import Stencil.Proofs.Json.RoundTrip

/-! # What JSON texts keep of strings

A byte that starts no character is written as the replacement character. The text of a tree is therefore the text of
the tree with mended strings (`compact_mended`), and this one is read back (`parse_compact_mended`). The values of an
object are also found as they stand in its text (`rawMembers_compact`). -/

namespace Stencil

namespace Text.Utf8

/-- The text with the replacement character for each byte that starts no character. -/
def mend (s : Bytes) : Bytes := (decode s).flatMap fun g => encodeChar (charOf g)

theorem mend_eq (s : Bytes) : mend s = ((decode s).map charOf).flatMap encodeChar := by
  rw [mend, List.flatMap_map]

theorem decode_mend (s : Bytes) : decode (mend s) = (decode s).map fun g => .char (charOf g) := by
  rw [mend_eq, decode_flatMap_encodeChar, List.map_map]
  rfl

theorem isValid_mend (s : Bytes) : isValid (mend s) = true := by
  rw [isValid, decode_mend, List.all_map, List.all_eq_true]
  exact fun _ _ => rfl

theorem mend_of_isValid {s : Bytes} (h : isValid s = true) : mend s = s := by
  obtain ⟨cs, rfl⟩ := exists_flatMap_of_isValid h
  rw [mend_eq, decode_flatMap_encodeChar, List.map_map]
  exact congrArg _ (List.map_id cs)

end Text.Utf8

namespace Json
open Text Text.Utf8

/-! ### Mended trees -/

mutual

/-- The tree with mended strings. -/
def mended : Json → Json
  | .null => .null
  | .bool b => .bool b
  | .number t => .number t
  | .string s => .string (mend s)
  | .array items => .array (mendedList items)
  | .object members => .object (mendedMembers members)

def mendedList : List Json → List Json
  | [] => []
  | j :: js => mended j :: mendedList js

def mendedMembers : List (Bytes × Json) → List (Bytes × Json)
  | [] => []
  | (k, v) :: rest => (mend k, mended v) :: mendedMembers rest

end

/-- A byte that starts no character looks like the replacement character. -/
theorem escapeGlyph_char (g : Glyph) : escapeGlyph (.char (charOf g)) = escapeGlyph g := by
  cases g with
  | char c => rfl
  | stray b => exact (by decide : escapeGlyph (.char replacement) = encodeChar replacement)

theorem quote_mend (s : Bytes) : quote (mend s) = quote s := by
  rw [quote, quote, decode_mend, List.flatMap_map]
  simp only [escapeGlyph_char]

mutual

theorem compact_mended : ∀ j : Json, (mended j).compact = j.compact
  | .null | .bool _ | .number _ => by rw [mended]
  | .string s => by rw [mended, compact, compact, quote_mend]
  | .array items => by rw [mended, compact, compact, compactList_mended items]
  | .object members => by rw [mended, compact, compact, compactMembers_mended members]

theorem compactList_mended : ∀ items : List Json, compactList (mendedList items) = compactList items
  | [] => by rw [mendedList]
  | j :: js => by rw [mendedList, compactList, compactList, compact_mended j, compactList_mended js]

theorem compactMembers_mended : ∀ members : List (Bytes × Json),
    compactMembers (mendedMembers members) = compactMembers members
  | [] => by rw [mendedMembers]
  | (k, v) :: rest => by
    rw [mendedMembers, compactMembers, compactMembers, quote_mend, compact_mended v, compactMembers_mended rest]

end

mutual

theorem height_mended : ∀ j : Json, (mended j).height = j.height
  | .null | .bool _ | .number _ => by rw [mended]
  | .string s => by simp [mended, height]
  | .array items => by rw [mended, height, height, heightList_mended items]
  | .object members => by rw [mended, height, height, heightMembers_mended members]

theorem heightList_mended : ∀ items : List Json, heightList (mendedList items) = heightList items
  | [] => by rw [mendedList]
  | j :: js => by rw [mendedList, heightList, heightList, height_mended j, heightList_mended js]

theorem heightMembers_mended : ∀ members : List (Bytes × Json),
    heightMembers (mendedMembers members) = heightMembers members
  | [] => by rw [mendedMembers]
  | (k, v) :: rest => by rw [mendedMembers, heightMembers, heightMembers, height_mended v, heightMembers_mended rest]

end

theorem mendedList_eq (items : List Json) : mendedList items = items.map mended := by
  induction items with
  | nil => rw [mendedList, List.map_nil]
  | cons j js ih => rw [mendedList, ih, List.map_cons]

theorem mendedMembers_eq (members : List (Bytes × Json)) :
    mendedMembers members = members.map fun m => (mend m.1, mended m.2) := by
  induction members with
  | nil => rw [mendedMembers, List.map_nil]
  | cons m ms ih => rw [mendedMembers, ih, List.map_cons]

/-- A tree whose numbers are integers. -/
inductive Integral : Json → Prop
  | null : Integral .null
  | bool (b : Bool) : Integral (.bool b)
  | int (n : Int) : Integral (.ofInt n)
  | string (s : Bytes) : Integral (.string s)
  | array {items : List Json} (each : ∀ j ∈ items, Integral j) : Integral (.array items)
  | object {members : List (Bytes × Json)} (each : ∀ m ∈ members, Integral m.2) : Integral (.object members)

theorem Integral.plain_mended {j : Json} (h : Integral j) : Plain (mended j) := by
  induction h with
  | null =>
    rw [mended]
    exact .null
  | bool b =>
    rw [mended]
    exact .bool b
  | int n =>
    rw [ofInt, mended]
    exact .int n
  | string s =>
    rw [mended]
    exact .string (isValid_mend s)
  | array _ ih =>
    rw [mended, mendedList_eq]
    refine .array fun j hj => ?_
    obtain ⟨i, hi, rfl⟩ := List.mem_map.mp hj
    exact ih i hi
  | object _ ih =>
    rw [mended, mendedMembers_eq]
    refine .object (fun m hm => ?_) fun m hm => ?_
    · obtain ⟨n, -, rfl⟩ := List.mem_map.mp hm
      exact isValid_mend n.1
    · obtain ⟨n, hn, rfl⟩ := List.mem_map.mp hm
      exact ih n hn

/-- The text of a tree is read as the tree with mended strings. -/
theorem parse_compact_mended {j : Json} (h : Integral j) (shallow : j.height ≤ maxHeight) :
    parse (compact j) = some (mended j) := by
  rw [← compact_mended j]
  exact parse_compact h.plain_mended (by rwa [height_mended])

/-! ### Values as they stand in a text -/

/-- The value at the front of a text, cut out of it. -/
theorem take_of_readsBack {j : Json} (value : ReadsBack j) {rest : Bytes} (stops : Stops rest) :
    ∃ read : Json × Bytes, valueAt (2 * (compact j ++ rest).length + 2) (compact j ++ rest) = some read ∧
      (compact j ++ rest).take ((compact j ++ rest).length - read.2.length) = compact j ∧ read.2 = rest := by
  refine ⟨(j, rest), value _ rest (by simp only [List.length_append]; omega) stops, ?_, rfl⟩
  exact List.take_left' (by simp)

theorem rawMembersAt_memberText {m : Bytes × Json} (name : isValid m.1 = true) (plain : Plain m.2) (fuel : Nat)
    {c : UInt8} (cs : Bytes) (stops : Stops (c :: cs)) (space : isSpace c = false) :
    rawMembersAt (fuel + 1) (memberText m ++ c :: cs) =
      if c = ascii ',' then (rawMembersAt fuel cs).map ((m.1, compact m.2) :: ·) else some [(m.1, compact m.2)] := by
  have colon : (":" : Bytes) = [ascii ':'] := rfl
  have split : memberText m ++ c :: cs =
      ascii '"' :: ((decode m.1).flatMap escapeGlyph ++ ascii '"' :: (ascii ':' :: (compact m.2 ++ c :: cs))) := by
    rw [memberText, List.append_assoc, List.append_assoc, quote_eq, colon]
    rfl
  have front : skipSpace (compact m.2 ++ c :: cs) = compact m.2 ++ c :: cs := by
    obtain ⟨d, ds, written, noSpace, -⟩ := plain.exists_lead
    rw [written, List.cons_append, skipSpace_cons noSpace]
  obtain ⟨read, value, cut, rest⟩ := take_of_readsBack plain.readsBack stops
  rw [split, rawMembersAt, skipSpace_cons (by decide), List.drop_succ_cons, List.drop_zero]
  simp only [stringBody_quote name, Option.bind_eq_bind, Option.bind_some, skipSpace_cons (c := ascii ':') (by decide),
    List.drop_succ_cons, List.drop_zero, front, value, cut]
  rw [rest, skipSpace_cons space]

theorem rawMembersAt_join {members : List (Bytes × Json)} (nonempty : members ≠ [])
    (names : ∀ m ∈ members, isValid m.1 = true) (each : ∀ m ∈ members, Plain m.2) {fuel : Nat}
    (enough : members.length ≤ fuel) :
    rawMembersAt fuel (Bytes.join "," (members.map memberText) ++ [closeBrace]) =
      some (members.map fun m => (m.1, compact m.2)) := by
  induction members generalizing fuel with
  | nil => exact absurd rfl nonempty
  | cons m more ih =>
    obtain ⟨fuel, rfl⟩ : ∃ f, fuel = f + 1 := ⟨fuel - 1, by simp at enough; omega⟩
    have name : isValid m.1 = true := names m (by simp)
    have plain : Plain m.2 := each m (by simp)
    cases more with
    | nil =>
      rw [List.map_singleton, join_singleton,
        rawMembersAt_memberText name plain fuel [] (stops_cons (by decide) _) (by decide), if_neg (by decide)]
      rfl
    | cons next more =>
      have after := ih (by simp) (fun m hm => names m (List.mem_cons_of_mem _ hm))
        (fun m hm => each m (List.mem_cons_of_mem _ hm)) (Nat.le_of_succ_le_succ enough)
      rw [List.map_cons, List.map_cons, join_comma, ← List.map_cons, List.append_assoc, List.cons_append,
        rawMembersAt_memberText name plain fuel _ (stops_cons (by decide) _) (by decide), if_pos rfl, after]
      rfl

/-- A list of texts, none of them empty, is no shorter than their number. -/
theorem length_le_length_join {parts : List Bytes} (h : ∀ p ∈ parts, p ≠ []) :
    parts.length ≤ (Bytes.join "," parts).length + 1 := by
  induction parts with
  | nil => exact Nat.zero_le _
  | cons p parts ih =>
    have hp : 0 < p.length := List.length_pos_iff.mpr (h p List.mem_cons_self)
    cases parts with
    | nil => simp
    | cons next parts =>
      have hparts := ih fun q hq => h q (List.mem_cons_of_mem _ hq)
      rw [join_comma, List.length_append, List.length_cons (a := ascii ','), List.length_cons (a := p)]
      omega

theorem Plain.rawMembers_compact {members : List (Bytes × Json)} (plain : Plain (.object members))
    (nonempty : members ≠ []) : rawMembers (compact (.object members)) = members.map fun m => (m.1, compact m.2) := by
  cases plain with
  | object names each =>
    have written : ∀ p ∈ members.map memberText, p ≠ [] := by
      intro p hp
      obtain ⟨m, -, rfl⟩ := List.mem_map.mp hp
      simp [memberText, quote]
    have enough := length_le_length_join written
    rw [rawMembers, compact, compactMembers_eq, List.cons_append, skipSpace_cons (by decide), List.drop_succ_cons,
      List.drop_zero, rawMembersAt_join nonempty names each]
    · rfl
    · rw [List.length_map] at enough
      simp only [List.length_cons, List.length_append]
      omega

/-- Each member of an object with the text of its value, as the object's text has them. -/
theorem rawMembers_compact {members : List (Bytes × Json)} (nonempty : members ≠ [])
    (each : ∀ m ∈ members, Integral m.2) :
    rawMembers (compact (.object members)) = members.map fun m => (mend m.1, compact m.2) := by
  have plain := (Integral.object each).plain_mended
  rw [mended, mendedMembers_eq] at plain
  rw [← compact_mended, mended, mendedMembers_eq, plain.rawMembers_compact (by simpa using nonempty), List.map_map]
  refine List.map_congr_left fun m _ => ?_
  simp only [Function.comp_apply, compact_mended]

end Json

end Stencil
