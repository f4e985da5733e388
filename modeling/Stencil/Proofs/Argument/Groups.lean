import Mathlib.Data.List.Basic
import Stencil.Proofs.Argument.Balanced

/-! # Bracketed groups

A group is balanced text with brackets of one kind around it. The search for a closing bracket finds the end of the
group that starts at an offset, and nothing where no group starts (`closing_finds_group`). -/

namespace Stencil.Argument

/-- Balanced text with its brackets. -/
inductive Group : Bytes → Prop
  | mk {c close : UInt8} {inside : Bytes} (hopen : closer? c = some close) (hinside : Balanced inside) :
      Group (c :: (inside ++ [close]))

/-- The bytes from the offset `start` to the offset `stop`, this one included, are a group. -/
def GroupAt (src : Bytes) (start stop : Nat) : Prop :=
  ∃ before group after, src = before ++ (group ++ after) ∧ before.length = start ∧ start + group.length = stop + 1 ∧
    Group group

/-! ### What the search has read -/

section
variable {top : UInt8} {below : List UInt8} {k : Nat}

/-- A search that gets out of a string literal has read its inside and the quote. -/
theorem exists_quoted_of_closingFrom {quote : UInt8} {i : Nat} {s : Bytes}
    (h : closingFrom top below (.string quote) i s = .ok k) : ∃ inside rest, s = inside ++ quote :: rest ∧
      Quoted quote inside ∧ closingFrom top below .plain (i + inside.length + 1) rest = .ok k := by
  -- a backslash hides the byte after it, so the induction takes two bytes at once there
  cases s with
  | nil => cases h
  | cons c s =>
    rw [closingFrom] at h
    unfold Mode.inString at h
    split at h
    · rename_i hescape
      obtain ⟨rfl, hquote⟩ := hescape
      cases s with
      | nil => cases h
      | cons d s =>
        rw [closingFrom] at h
        obtain ⟨inside, rest, rfl, hinside, hrest⟩ := exists_quoted_of_closingFrom h
        refine ⟨ascii '\\' :: d :: inside, rest, rfl, .escaped hquote hinside, ?_⟩
        rw [← hrest, List.length_cons, List.length_cons]
        congr 1
        omega
    rename_i hescape
    split at h
    · rename_i hc
      rw [hc]
      exact ⟨[], s, rfl, .nil, h⟩
    · rename_i hc
      obtain ⟨inside, rest, rfl, hinside, hrest⟩ := exists_quoted_of_closingFrom h
      refine ⟨c :: inside, rest, rfl, .byte hc (fun hc => by_contra fun hquote => hescape ⟨hc, hquote⟩) hinside, ?_⟩
      rw [← hrest, List.length_cons]
      congr 1
      omega

/-- How a search goes on behind the bracket that closes the innermost group: it is over, or the next group is open. -/
def ClosesNext (k : Nat) : (below : List UInt8) → Nat → Bytes → Prop
  | [], i, _ => k = i
  | next :: outer, i, rest => closingFrom next outer .plain (i + 1) rest = .ok k

/-- A search that succeeds has read balanced text up to the bracket that closes the innermost group. -/
theorem exists_balanced_of_closingFrom {i : Nat} {s : Bytes} (h : closingFrom top below .plain i s = .ok k) :
    ∃ inside rest, s = inside ++ top :: rest ∧ Balanced inside ∧ ClosesNext k below (i + inside.length) rest := by
  -- by induction on the length: behind a literal or an inner group the search goes on in a shorter text
  induction hn : s.length using Nat.strongRecOn generalizing top below i s with
  | ind n ih =>
    cases s with
    | nil => cases h
    | cons c s =>
      rw [List.length_cons] at hn
      rw [closingFrom_plain] at h
      split at h
      · rename_i hquote
        obtain ⟨literal, rest, rfl, hliteral, h⟩ := exists_quoted_of_closingFrom h
        obtain ⟨inside, rest, rfl, hinside, hnext⟩ := ih rest.length (by simp at hn; omega) h rfl
        refine ⟨c :: (literal ++ c :: inside), rest, by simp, .string hquote hliteral hinside, ?_⟩
        convert hnext using 1
        simp only [List.length_cons, List.length_append]
        omega
      rename_i hquote
      split at h
      · rename_i close hopen
        obtain ⟨group, rest, rfl, hgroup, h⟩ := ih s.length (by omega) h rfl
        obtain ⟨inside, rest, rfl, hinside, hnext⟩ := ih rest.length (by simp at hn; omega) h rfl
        refine ⟨c :: (group ++ close :: inside), rest, by simp, .group hopen hgroup hinside, ?_⟩
        convert hnext using 1
        simp only [List.length_cons, List.length_append]
        omega
      rename_i hopen
      split at h
      · split at h
        · rename_i hc
          rw [hc]
          refine ⟨[], s, rfl, .nil, ?_⟩
          cases below with
          | nil => exact (Except.ok.inj h).symm
          | cons next outer => exact h
        · cases h
      · rename_i hclose
        obtain ⟨inside, rest, rfl, hinside, hnext⟩ := ih s.length (by omega) h rfl
        refine ⟨c :: inside, rest, rfl,
          .byte (eq_false_of_ne_true hquote) hopen (eq_false_of_ne_true hclose) hinside, ?_⟩
        convert hnext using 1
        rw [List.length_cons]
        omega

end

/-! ### Groups -/

/-- The search stops at the end of a group, whatever is behind it. -/
theorem Group.closing_append {group : Bytes} (h : Group group) (before after : Bytes) :
    ∃ stop, before.length + group.length = stop + 1 ∧ closing (before ++ (group ++ after)) before.length = .ok stop := by
  obtain ⟨hopen, hinside⟩ := h
  rename_i c close inside
  obtain ⟨-, hquote, hopen', hclose⟩ := isCloser_of_closer? hopen
  refine ⟨before.length + 1 + inside.length, by simp; omega, ?_⟩
  rw [closing, List.drop_left]
  simp only [List.cons_append, hopen]
  rw [List.append_assoc, hinside.closingFrom_append, List.singleton_append, closingFrom_plain]
  simp only [hquote, hopen', hclose, Bool.false_eq_true, if_false, if_true]

theorem groupAt_of_closing {src : Bytes} {start stop : Nat} (h : closing src start = .ok stop) :
    GroupAt src start stop := by
  unfold closing at h
  split at h
  · cases h
  rename_i c cs hsrc
  split at h
  · cases h
  rename_i close hopen
  obtain ⟨inside, rest, rfl, hinside, rfl⟩ := exists_balanced_of_closingFrom h
  have hstart : start ≤ src.length := by
    by_contra hlong
    rw [List.drop_eq_nil_of_le (by omega)] at hsrc
    cases hsrc
  refine ⟨src.take start, c :: (inside ++ [close]), rest, ?_, List.length_take_of_le hstart, ?_, .mk hopen hinside⟩
  · conv_lhs => rw [← List.take_append_drop start src, hsrc]
    simp
  · simp only [List.length_cons, List.length_append, List.length_nil]
    omega

theorem closing_of_groupAt {src : Bytes} {start stop : Nat} (h : GroupAt src start stop) :
    closing src start = .ok stop := by
  obtain ⟨before, group, after, rfl, rfl, hstop, hgroup⟩ := h
  obtain ⟨stop', hstop', hclosing⟩ := hgroup.closing_append before after
  rw [hclosing]
  congr 1
  omega

theorem GroupAt.take_append {src : Bytes} {start stop : Nat} (h : GroupAt src start stop) (after : Bytes) :
    GroupAt (src.take (stop + 1) ++ after) start stop := by
  obtain ⟨before, group, behind, rfl, rfl, hstop, hgroup⟩ := h
  refine ⟨before, group, after, ?_, rfl, hstop, hgroup⟩
  rw [← List.append_assoc before, List.take_left' (by simpa using hstop), List.append_assoc]

/-- The search for a closing bracket answers with the end of the group at an offset and fails where no group is. There
is at most one such end, and what follows it makes no difference. -/
theorem closing_finds_group (src : Bytes) (start : Nat) :
    (∀ stop, closing src start = .ok stop ↔ GroupAt src start stop) ∧
      (∀ stop stop', GroupAt src start stop → GroupAt src start stop' → stop = stop') ∧
      (∀ stop, GroupAt src start stop → ∀ after, closing (src.take (stop + 1) ++ after) start = .ok stop) ∧
      ((∀ stop, ¬GroupAt src start stop) → ∃ e, closing src start = .error e) := by
  refine ⟨fun stop => ⟨groupAt_of_closing, closing_of_groupAt⟩, fun stop stop' h h' => ?_, fun stop h after => ?_,
    fun hnone => ?_⟩
  · exact Except.ok.inj ((closing_of_groupAt h).symm.trans (closing_of_groupAt h'))
  · exact closing_of_groupAt (h.take_append after)
  · cases hclosing : closing src start with
    | error e => exact ⟨e, rfl⟩
    | ok stop => exact absurd (groupAt_of_closing hclosing) (hnone stop)

/-- A bracket in a literal does not count, and an escaped quote does not end the literal. -/
theorem closing_finds_group_hidden : closing "f('\\')', [1]) g" 1 = .ok 12 ∧ GroupAt "f('\\')', [1]) g" 1 12 := by
  have h : closing "f('\\')', [1]) g" 1 = .ok 12 := by decide
  exact ⟨h, ((closing_finds_group _ 1).1 12).mp h⟩

end Stencil.Argument
