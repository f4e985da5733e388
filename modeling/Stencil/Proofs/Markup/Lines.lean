import Mathlib.Data.List.Induction
import Stencil.Proofs.Markup.Rules

/-! # Lines and columns

The line and the column of an offset, which halving the table of line starts finds, are those that the text has
there (`isAt_position`), and no read leaves the table on the way (`position?_eq_position`). Places are ordered as
their offsets are (`Position.IsAt.before`). Each head of a tree is found in the template at the place that it bears
(`pointsAt_of_parse`). -/

namespace Stencil.Markup

open Stencil.Directive

/-! ### Line starts -/

theorem lineStartsFrom_append (s t : Bytes) : ∀ i,
    lineStartsFrom i (s ++ t) = lineStartsFrom i s ++ lineStartsFrom (i + s.length) t := by
  induction s with
  | nil => exact fun i => rfl
  | cons c s ih =>
    intro i
    have hlength : i + (c :: s).length = i + 1 + s.length := by simp; omega
    rw [List.cons_append, lineStartsFrom, lineStartsFrom, ih, hlength]
    split <;> rfl

theorem bounds_of_mem_lineStartsFrom {s : Bytes} : ∀ {i k : Nat}, k ∈ lineStartsFrom i s → i < k ∧ k ≤ i + s.length := by
  induction s with
  | nil => exact nofun
  | cons c s ih =>
    intro i k hk
    rw [lineStartsFrom] at hk
    rw [List.length_cons]
    split at hk
    · rcases List.mem_cons.mp hk with rfl | hk
      · omega
      · have := ih hk
        omega
    · have := ih hk
      omega

theorem length_lineStartsFrom (s : Bytes) : ∀ i, (lineStartsFrom i s).length = s.count 10 := by
  induction s with
  | nil => exact fun i => rfl
  | cons c s ih =>
    intro i
    rw [lineStartsFrom, List.count_cons]
    by_cases hc : c = 10 <;> simp [hc, ih]

/-- The last line starts after the last line break. -/
theorem getLast_lineStarts (s : Bytes) :
    (0 :: lineStartsFrom 0 s).getLast (List.cons_ne_nil _ _) + (s.reverse.takeWhile (· != 10)).length = s.length := by
  induction s using List.reverseRecOn with
  | nil => rfl
  | append_singleton s c ih =>
    by_cases hc : c = 10
    · have hstarts : 0 :: lineStartsFrom 0 (s ++ [c]) = (0 :: lineStartsFrom 0 s) ++ [s.length + 1] := by
        simp [lineStartsFrom_append, lineStartsFrom, hc]
      simp only [hstarts, List.getLast_append_of_ne_nil _ (List.cons_ne_nil (s.length + 1) [])]
      simp [hc]
    · have hstarts : 0 :: lineStartsFrom 0 (s ++ [c]) = 0 :: lineStartsFrom 0 s := by
        simp [lineStartsFrom_append, lineStartsFrom, hc]
      simp only [hstarts]
      simp [hc]
      omega

/-! ### Searching -/

/-- Halving finds how many line starts are not after the offset. -/
theorem search_eq {a b : List Nat} {offset : Nat} (ha : ∀ k ∈ a, k ≤ offset) (hb : ∀ k ∈ b, offset < k) {lo hi : Nat}
    (hlo : lo ≤ a.length) (hhi : a.length ≤ hi) (hsize : hi ≤ (a ++ b).length) :
    (⟨(a ++ b).toArray⟩ : LineTable).search offset lo hi = a.length := by
  rw [LineTable.search]
  split
  · rename_i hlt
    have hmid : (lo + hi) / 2 < (a ++ b).length := by omega
    simp only [List.getElem?_toArray, List.getElem?_eq_getElem hmid, Option.getD_some]
    by_cases hside : (lo + hi) / 2 < a.length
    · have hle : (a ++ b)[(lo + hi) / 2] ≤ offset := by
        rw [List.getElem_append_left hside]
        exact ha _ (List.getElem_mem _)
      rw [if_neg (Nat.not_lt.mpr hle)]
      exact search_eq ha hb hside hhi hsize
    · have hlt : offset < (a ++ b)[(lo + hi) / 2] := by
        rw [List.getElem_append_right (Nat.not_lt.mp hside)]
        exact hb _ (List.getElem_mem _)
      rw [if_pos hlt]
      exact search_eq ha hb hlo (Nat.not_lt.mp hside) (by omega)
  · omega
termination_by hi - lo

/-! ### Places -/

/-- The line and the column are those of the offset in the text: lines end with a line break, and both count from
one. -/
structure Position.IsAt (place : Position) (src : Bytes) : Prop where
  inside : place.offset ≤ src.length
  line : place.line = 1 + (src.take place.offset).count 10
  column : place.column = 1 + ((src.take place.offset).reverse.takeWhile (· != 10)).length

section Table
variable {src : Bytes} {offset : Nat}

/-- The lines that start at an offset or before are those that start in the text before it. -/
theorem lineStarts_split (h : offset ≤ src.length) : 0 :: lineStartsFrom 0 src =
    (0 :: lineStartsFrom 0 (src.take offset)) ++ lineStartsFrom offset (src.drop offset) := by
  have hlength : (src.take offset).length = offset := by rw [List.length_take, Nat.min_eq_left h]
  have happend := lineStartsFrom_append (src.take offset) (src.drop offset) 0
  rw [List.take_append_drop, hlength, Nat.zero_add] at happend
  rw [happend, List.cons_append]

theorem search_ofText (h : offset ≤ src.length) :
    (LineTable.ofText src).search offset 0 (LineTable.ofText src).starts.size = (src.take offset).count 10 + 1 := by
  have hbefore : ∀ k ∈ 0 :: lineStartsFrom 0 (src.take offset), k ≤ offset := by
    intro k hk
    rcases List.mem_cons.mp hk with rfl | hk
    · exact Nat.zero_le _
    · have hbounds := bounds_of_mem_lineStartsFrom hk
      rw [List.length_take] at hbounds
      omega
  have hafter : ∀ k ∈ lineStartsFrom offset (src.drop offset), offset < k := fun k hk =>
    (bounds_of_mem_lineStartsFrom hk).1
  rw [← length_lineStartsFrom (src.take offset) 0, ← List.length_cons, LineTable.ofText, lineStarts_split h]
  exact search_eq hbefore hafter (Nat.zero_le _) (by simp) (by simp)

theorem exists_lineStart (h : offset ≤ src.length) : ∃ start,
    (LineTable.ofText src).starts[(src.take offset).count 10]? = some start ∧
      start + ((src.take offset).reverse.takeWhile (· != 10)).length = offset := by
  have hindex : (src.take offset).count 10 < (0 :: lineStartsFrom 0 (src.take offset)).length := by
    simp [length_lineStartsFrom]
  refine ⟨_, ?_, (getLast_lineStarts (src.take offset)).trans (by rw [List.length_take, Nat.min_eq_left h])⟩
  rw [LineTable.ofText, lineStarts_split h, List.getElem?_toArray, List.getElem?_append_left hindex,
    List.getElem?_eq_getElem hindex, List.getLast_eq_getElem]
  simp [length_lineStartsFrom]

theorem isAt_position (h : offset ≤ src.length) : ((LineTable.ofText src).position offset).IsAt src := by
  obtain ⟨start, hstart, hcolumn⟩ := exists_lineStart h
  refine ⟨h, ?_, ?_⟩
  · simp only [LineTable.position, search_ofText h, Nat.add_comm]
  · simp only [LineTable.position, search_ofText h, Nat.add_sub_cancel, hstart, Option.getD_some]
    omega

/-! ### Reads of the table -/

/-- The search, without a result when it reads a line start that the table does not have. -/
def LineTable.search? (t : LineTable) (offset lo hi : Nat) : Option Nat :=
  if lo < hi then
    let mid := (lo + hi) / 2
    match t.starts[mid]? with
    | none => none
    | some start => if offset < start then t.search? offset lo mid else t.search? offset (mid + 1) hi
  else some lo
termination_by hi - lo

/-- The position, without a result when no line has started yet, when its line starts after the offset, or when a
read leaves the table. -/
def LineTable.position? (t : LineTable) (offset : Nat) : Option Position :=
  match t.search? offset 0 t.starts.size with
  | none | some 0 => none
  | some (line + 1) =>
    match t.starts[line]? with
    | none => none
    | some start => if start ≤ offset then some ⟨line + 1, offset - start + 1, offset⟩ else none

/-- Halving reads between its bounds only. -/
theorem search?_eq_search (t : LineTable) (offset : Nat) {lo hi : Nat} (h : hi ≤ t.starts.size) :
    t.search? offset lo hi = some (t.search offset lo hi) := by
  rw [LineTable.search?, LineTable.search]
  split
  · rename_i hlt
    have hmid : (lo + hi) / 2 < t.starts.size := by omega
    simp only [Array.getElem?_eq_getElem hmid, Option.getD_some]
    split
    · exact search?_eq_search t offset (by omega)
    · exact search?_eq_search t offset h
  · rfl
termination_by hi - lo

theorem position?_eq_position (h : offset ≤ src.length) :
    (LineTable.ofText src).position? offset = some ((LineTable.ofText src).position offset) := by
  obtain ⟨start, hstart, hcolumn⟩ := exists_lineStart h
  have hle : start ≤ offset := by omega
  simp only [LineTable.position?, LineTable.position, search?_eq_search _ offset (Nat.le_refl _), search_ofText h,
    Nat.add_sub_cancel, hstart, Option.getD_some, if_pos hle]

end Table

/-! ### Order of places -/

/-- An earlier line, or the same line and an earlier column. -/
def Position.Before (p q : Position) : Prop := p.line < q.line ∨ p.line = q.line ∧ p.column < q.column

section Order
variable {src : Bytes} {p q : Position}

theorem Position.Before.asymm (h : p.Before q) : ¬q.Before p := by
  unfold Before at h ⊢
  omega

theorem Position.Before.ne (h : p.Before q) : (p.line, p.column) ≠ (q.line, q.column) := by
  intro heq
  obtain ⟨hline, hcolumn⟩ := Prod.mk.inj heq
  unfold Before at h
  omega

/-- Further on in a text there are more line breaks, or there are as many and the line has become longer. -/
theorem Position.IsAt.before (hp : p.IsAt src) (hq : q.IsAt src) (h : p.offset < q.offset) : p.Before q := by
  obtain ⟨n, hn⟩ := Nat.exists_eq_add_of_lt h
  have hinside := hq.inside
  have hline := hq.line
  have hcolumn := hq.column
  have hcolumn' := hp.column
  have htake : src.take q.offset = src.take p.offset ++ (src.drop p.offset).take (n + 1) := by
    rw [hn, Nat.add_assoc, List.take_add]
  rw [htake, List.count_append, ← Nat.add_assoc, ← hp.line] at hline
  by_cases hbreak : 10 ∈ (src.drop p.offset).take (n + 1)
  · -- a line break between the two
    have hcount := List.count_pos_iff.mpr hbreak
    exact Or.inl (by omega)
  · -- one line, where the column grows by the bytes between the two
    have hcount := List.count_eq_zero.mpr hbreak
    have hplain : ∀ c ∈ ((src.drop p.offset).take (n + 1)).reverse, (c != 10) = true := fun c hc =>
      bne_iff_ne.mpr fun heq => hbreak (heq ▸ List.mem_reverse.mp hc)
    rw [htake, List.reverse_append, List.takeWhile_append_of_pos hplain, List.length_append, List.length_reverse,
      List.length_take, List.length_drop] at hcolumn
    exact Or.inr ⟨by omega, by omega⟩

end Order

/-- Positions are exact: no read leaves the table, lines and columns are those of the text, and they are ordered as
the offsets are, so no two offsets have the same. -/
theorem positions_exact (src : Bytes) :
    let table := LineTable.ofText src
    (∀ offset ≤ src.length, table.position? offset = some (table.position offset) ∧
      (table.position offset).offset = offset ∧ (table.position offset).IsAt src) ∧
    ∀ a ≤ src.length, ∀ b ≤ src.length, (a < b ↔ (table.position a).Before (table.position b)) ∧
      (a ≠ b → ((table.position a).line, (table.position a).column) ≠
        ((table.position b).line, (table.position b).column)) := by
  intro table
  have hbefore {a b : Nat} (ha : a ≤ src.length) (hb : b ≤ src.length) (h : a < b) :
      (table.position a).Before (table.position b) := (isAt_position ha).before (isAt_position hb) h
  refine ⟨fun offset h => ⟨position?_eq_position h, rfl, isAt_position h⟩, fun a ha b hb => ⟨⟨hbefore ha hb, ?_⟩, ?_⟩⟩
  · intro h
    rcases Nat.lt_trichotomy a b with hlt | rfl | hgt
    · exact hlt
    · exact absurd h h.asymm
    · exact absurd h (hbefore hb ha hgt).asymm
  · intro hne
    rcases Nat.lt_or_gt_of_ne hne with hlt | hgt
    · exact (hbefore ha hb hlt).ne
    · exact (hbefore hb ha hgt).ne.symm

/-- A line break stands at the end of its line, the byte after it at the start of the next. -/
theorem positions_exact_blank_line :
    let table := LineTable.ofText "a\n\nb"
    table.position? 2 = some (table.position 2) ∧ (table.position 2).line = 2 ∧ (table.position 2).column = 1 ∧
      (table.position 1).Before (table.position 2) ∧ (table.position 2).Before (table.position 4) := by
  intro table
  obtain ⟨hexact, horder⟩ := positions_exact "a\n\nb"
  obtain ⟨hread, hoffset, hat⟩ := hexact 2 (by decide)
  have hline := hat.line
  have hcolumn := hat.column
  rw [hoffset] at hline hcolumn
  refine ⟨hread, hline.trans (by decide), hcolumn.trans (by decide), ?_, ?_⟩
  · exact (horder 1 (by decide) 2 (by decide)).1.mp (by decide)
  · exact (horder 2 (by decide) 4 (by decide)).1.mp (by decide)

/-! ### Heads -/

/-- At the place in the template there is an at sign with the name right behind it. -/
structure PointsAt (src name : Bytes) (place : Position) : Prop where
  isAt : place.IsAt src
  head : ascii '@' :: name <+: src.drop place.offset

variable {r : Registry} {options : ParseOptions} {src : Bytes}

theorem HeadSource.starts {name : Bytes} {args : Option Bytes} {source : Bytes} (h : HeadSource name args source) :
    ascii '@' :: name <+: source := by
  cases h with
  | bare => exact List.prefix_rfl
  | bracketed => exact List.cons_prefix_cons.mpr ⟨rfl, List.prefix_append _ _⟩

/-- Where a head is read, it is in the template. -/
theorem pointsAt_of_head {s : Reading} (hs : Reaches r options src s) {name : Bytes} {args : Option Bytes} {stop : Nat}
    (h : s.Head r name args stop) : PointsAt src name ((LineTable.ofText src).position s.offset) := by
  obtain ⟨hrest, hoffset⟩ := hs.rest_eq
  obtain ⟨c, cs, n, hcs, hpiece, -⟩ := h
  have hread : PieceSource r options (cs.drop n) (.head name args) (c :: cs.take n) := pieceSource hpiece
  have hsource : HeadSource name args (c :: cs.take n) := hread
  refine ⟨isAt_position hoffset, ?_⟩
  show ascii '@' :: name <+: src.drop s.offset
  rw [← hrest, hcs]
  exact hsource.starts.trans (List.cons_prefix_cons.mpr ⟨rfl, List.take_prefix n cs⟩)

theorem pointsAt_of_parse {path : Bytes} {nodes : List Node} (h : parse r options path src = .ok nodes) :
    ∀ tag ∈ Node.tagsList nodes, PointsAt src tag.name tag.span.start :=
  heads_of_parse (P := fun name _ place => PointsAt src name place) h fun hs hhead => pointsAt_of_head hs hhead

end Stencil.Markup
