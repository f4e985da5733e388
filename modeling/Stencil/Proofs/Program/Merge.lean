import Mathlib.Data.List.Chain
import Stencil.Compile.Template
import Stencil.Proofs.Program.Structure

/-! # Joined literals

A program is made of the instructions of a template with neighbouring literals joined. Joining keeps
the shape of every place and the labels, so it keeps code structured, and what cannot be linked stays so
(`link_mergeLiterals`). Programs are made by adding to the literal at the end of a list in a place of its own,
which leaves the sections of the template as they are (`Stored.program_eq`). -/

namespace Stencil.Compile

open Program (marked Structured link_eq_ok checkShape_cons)

/-- Joining looks at the first instruction and the joined rest. -/
theorem mergeLiterals_cons (i : Instr) (rest : List Instr) :
    mergeLiterals (i :: rest) = i :: mergeLiterals rest ∨
      ∃ j more, mergeLiterals rest = j :: more ∧ i.op = .text ∧ j.op = .text ∧
        mergeLiterals (i :: rest) = { i with text := i.text ++ j.text } :: more := by
  rw [mergeLiterals]
  cases hrest : mergeLiterals rest with
  | nil => exact Or.inl rfl
  | cons j more =>
    by_cases h : i.op = .text ∧ j.op = .text
    · exact Or.inr ⟨j, more, rfl, h.1, h.2, if_pos h⟩
    · exact Or.inl (if_neg h)

theorem through_mergeLiterals (instrs : List Instr) (s : Shape) :
    s.through (mergeLiterals instrs) = s.through instrs := by
  induction instrs generalizing s with
  | nil => rfl
  | cons i rest ih =>
    rcases mergeLiterals_cons i rest with h | ⟨j, more, hrest, hi, hj, h⟩
    · simp [h, ih]
    · rw [h, Shape.through_cons, Shape.through_cons, ← ih, hrest]
      simp [Shape.after, hi, hj]

theorem marks_mergeLiterals (instrs : List Instr) (s : Shape) :
    s.marks (mergeLiterals instrs) = s.marks instrs := by
  induction instrs generalizing s with
  | nil => rfl
  | cons i rest ih =>
    rcases mergeLiterals_cons i rest with h | ⟨j, more, hrest, hi, hj, h⟩
    · simp [h, Shape.marks, ih]
    · rw [h, Shape.marks, Shape.marks, ← ih, hrest]
      simp [Shape.marks, Shape.after, hi, hj]

theorem marked_mergeLiterals (instrs : List Instr) : marked (mergeLiterals instrs) = marked instrs := by
  rw [← Shape.map_fst_marks (s := {}), marks_mergeLiterals, Shape.map_fst_marks]

theorem sound_mergeLiterals {labels : List (Int × Shape)} {instrs : List Instr} {s : Shape}
    (hs : s.Sound labels instrs) : s.Sound labels (mergeLiterals instrs) := by
  induction instrs generalizing s with
  | nil => trivial
  | cons i rest ih =>
    have hrest := ih hs.2
    rcases mergeLiterals_cons i rest with h | ⟨j, more, hmore, hi, hj, h⟩
    · rw [h]
      exact ⟨hs.1, hrest⟩
    · rw [hmore] at hrest
      rw [h]
      refine ⟨by simp [Shape.Allows, hi], ?_⟩
      have hafter : (s.after i).after j = s.after { i with text := i.text ++ j.text } := by
        simp [Shape.after, hi, hj]
      exact hafter ▸ hrest.2

theorem structured_mergeLiterals {instrs : List Instr} (h : Structured instrs) :
    Structured (mergeLiterals instrs) where
  closed := by rw [through_mergeLiterals, h.closed]
  sound := by
    rw [marks_mergeLiterals]
    exact sound_mergeLiterals h.sound
  nodup := by
    rw [marked_mergeLiterals]
    exact h.nodup

/-! ### Linking -/

theorem mem_mergeLiterals {i : Instr} (hi : i.op ≠ .text) (instrs : List Instr) :
    i ∈ mergeLiterals instrs ↔ i ∈ instrs := by
  induction instrs with
  | nil => rfl
  | cons x rest ih =>
    rcases mergeLiterals_cons x rest with h | ⟨j, more, hrest, hx, hj, h⟩
    · rw [h, List.mem_cons, List.mem_cons, ih]
    · rw [hrest] at ih
      have hne (y : Instr) (hy : y.op = .text) : i ≠ y := fun h => hi (h ▸ hy)
      rw [h, List.mem_cons, List.mem_cons, ← ih, List.mem_cons, or_iff_right (hne x hx), or_iff_right (hne j hj),
        or_iff_right (hne { x with text := x.text ++ j.text } hx)]

/-- The shape does not depend on where the instructions stand, and literals add nothing to it. -/
theorem checkShape_mergeLiterals (name : Bytes) (instrs : List Instr) (k k' : Nat) (seen : List Int) (depth : Nat) :
    Program.checkShape name k' seen depth (mergeLiterals instrs) = .ok () ↔
      Program.checkShape name k seen depth instrs = .ok () := by
  induction instrs generalizing k k' seen depth with
  | nil => cases depth <;> simp [mergeLiterals, Program.checkShape]
  | cons i rest ih =>
    rcases mergeLiterals_cons i rest with h | ⟨j, more, hrest, hi, hj, h⟩
    · rw [h, checkShape_cons, checkShape_cons]
      cases i.op with
      | label =>
        dsimp only
        split
        · simp
        · exact ih _ _ _ _
      | exitScope =>
        cases depth with
        | zero => simp
        | succ depth => exact ih _ _ _ _
      | enterScope | text | emit | comment | jump | jumpIfNot | set | bind | range | next | render | placeholder
      | resolve | unknown code => exact ih _ _ _ _
    · have hrest' := ih (k + 1) k' seen depth
      rw [hrest, checkShape_cons, hj] at hrest'
      rw [h, checkShape_cons, checkShape_cons]
      simp only [hi]
      exact hrest'

/-- Joined instructions can be linked exactly when the instructions can. -/
theorem link_mergeLiterals (name : Bytes) (instrs : List Instr) :
    (∃ q, Program.link name (mergeLiterals instrs) = .ok q) ↔ ∃ p, Program.link name instrs = .ok p := by
  have hjumps : (∀ i ∈ mergeLiterals instrs, i.op.jumps = true → i.label ∈ marked (mergeLiterals instrs)) ↔
      ∀ i ∈ instrs, i.op.jumps = true → i.label ∈ marked instrs := by
    have hmem {i : Instr} (hi : i.op.jumps = true) : i ∈ mergeLiterals instrs ↔ i ∈ instrs :=
      mem_mergeLiterals (fun h => by rw [h] at hi; cases hi) instrs
    rw [marked_mergeLiterals]
    exact ⟨fun h i hi hop => h i ((hmem hop).mpr hi) hop, fun h i hi hop => h i ((hmem hop).mp hi) hop⟩
  simp only [link_eq_ok, exists_eq_left, checkShape_mergeLiterals name instrs 0 0, hjumps]

/-! ### Neighbours -/

/-- Two instructions that are not both literals. -/
def Apart (i j : Instr) : Prop := ¬(i.op = .text ∧ j.op = .text)

theorem isChain_mergeLiterals (instrs : List Instr) : (mergeLiterals instrs).IsChain Apart := by
  induction instrs with
  | nil => exact .nil
  | cons i rest ih =>
    rw [mergeLiterals]
    cases hrest : mergeLiterals rest with
    | nil => exact .singleton i
    | cons j more =>
      rw [hrest] at ih
      dsimp only
      split
      · rename_i hij
        -- the joined literal is as far apart from what follows as the literal that it took in
        cases ih with
        | singleton => exact .singleton _
        | cons_cons hj hmore => exact .cons_cons (fun h => hj ⟨hij.2, h.2⟩) hmore
      · rename_i hij
        exact .cons_cons hij ih

/-! ### Linking in place -/

/-- An instruction behind others; a literal behind a literal is added to its text. -/
def joinLast : List Instr → Instr → List Instr
  | [], i => [i]
  | [j], i => if j.op = .text ∧ i.op = .text then [{ j with text := j.text ++ i.text }] else [j, i]
  | j :: k :: rest, i => j :: joinLast (k :: rest) i

theorem mergeLiterals_concat (instrs : List Instr) (i : Instr) :
    mergeLiterals (instrs ++ [i]) = joinLast (mergeLiterals instrs) i := by
  induction instrs with
  | nil => rfl
  | cons x rest ih =>
    rw [List.cons_append, mergeLiterals, ih, mergeLiterals]
    rcases mergeLiterals rest with _ | ⟨j, _ | ⟨k, more⟩⟩
    · rfl
    · by_cases hx : x.op = .text <;> by_cases hj : j.op = .text <;> by_cases hi : i.op = .text <;>
        simp [joinLast, hx, hj, hi]
    · by_cases hxj : x.op = .text ∧ j.op = .text <;> simp [joinLast, hxj]

theorem foldl_joinLast (instrs more : List Instr) :
    more.foldl joinLast (mergeLiterals instrs) = mergeLiterals (instrs ++ more) := by
  induction more generalizing instrs with
  | nil => rw [List.append_nil]; rfl
  | cons i more ih => rw [List.foldl_cons, ← mergeLiterals_concat, ih, List.append_assoc, List.singleton_append]

/-- Lists of instructions in memory, by their addresses. -/
abbrev Memory := List (List Instr)

/-- A compiled template whose sections stand in memory. -/
structure Stored where
  path : Bytes
  pre : Nat
  body : Nat
  post : Nat

/-- Reads a list from its first instruction to its last, and puts each one behind those at `dest`. -/
def Memory.copy (dest source : Nat) (mem : Memory) : Memory :=
  (List.range (mem.getD source []).length).foldl
    (fun mem k =>
      match (mem.getD source [])[k]? with
      | some i => mem.modify dest (joinLast · i)
      | none => mem) mem

/-- Makes a program in a new place of the memory. -/
def Stored.program (u : Stored) (mem : Memory) : Except LinkError Program × Memory :=
  let dest := mem.length
  let mem := Memory.copy dest u.post (.copy dest u.body (.copy dest u.pre (mem ++ [[]])))
  (Program.link u.path (mem.getD dest []), mem)

/-- The sections of the template are in memory. -/
structure Stored.Holds (u : Stored) (mem : Memory) (t : Template) : Prop where
  path : u.path = t.path
  pre : mem[u.pre]? = some t.pre
  body : mem[u.body]? = some t.body
  post : mem[u.post]? = some t.post

/-- A list that is read stays as it is, since the new place is none of the old ones. -/
theorem Memory.copy_append {source : Nat} {mem : Memory} {instrs : List Instr} (h : mem[source]? = some instrs)
    (code : List Instr) : Memory.copy mem.length source (mem ++ [code]) = mem ++ [instrs.foldl joinLast code] := by
  obtain ⟨hsource, -⟩ := List.getElem?_eq_some_iff.mp h
  have hread (code : List Instr) : (mem ++ [code]).getD source [] = instrs := by
    rw [List.getD_eq_getElem?_getD, List.getElem?_append_left hsource, h, Option.getD_some]
  -- by induction on how far the list is read
  have hfront : ∀ n ≤ instrs.length, (List.range n).foldl
      (fun m k =>
        match (m.getD source [])[k]? with
        | some i => m.modify mem.length (joinLast · i)
        | none => m) (mem ++ [code]) = mem ++ [(instrs.take n).foldl joinLast code] := by
    intro n hn
    induction n with
    | zero => rfl
    | succ n ih =>
      have hlt : n < instrs.length := hn
      rw [List.range_succ, List.foldl_append, ih (Nat.le_of_lt hlt), List.foldl_cons, List.foldl_nil, hread,
        List.getElem?_eq_getElem hlt, List.take_succ_eq_append_getElem hlt, List.foldl_append]
      simp [List.modify_eq_take_drop]
  have hall := hfront instrs.length (Nat.le_refl _)
  rw [List.take_length] at hall
  rw [Memory.copy, hread]
  exact hall

theorem Stored.Holds.append {u : Stored} {mem : Memory} {t : Template} (h : u.Holds mem t) (code : List Instr) :
    u.Holds (mem ++ [code]) t := by
  have hkeep {k : Nat} {instrs : List Instr} (hk : mem[k]? = some instrs) : (mem ++ [code])[k]? = some instrs := by
    rw [List.getElem?_append_left (List.getElem?_eq_some_iff.mp hk).1, hk]
  exact ⟨h.path, hkeep h.pre, hkeep h.body, hkeep h.post⟩

/-- The program is made in the new place, and nothing else in memory changes. -/
theorem Stored.program_eq {u : Stored} {mem : Memory} {t : Template} (h : u.Holds mem t) :
    u.program mem = (t.program, mem ++ [mergeLiterals t.instrs]) := by
  have hcode : t.post.foldl joinLast (t.body.foldl joinLast (t.pre.foldl joinLast [])) = mergeLiterals t.instrs := by
    rw [← List.foldl_append, ← List.foldl_append, Template.instrs, List.append_assoc, ← List.nil_append (t.pre ++ _),
      ← foldl_joinLast]
    rfl
  have hdest (code : List Instr) : (mem ++ [code]).getD mem.length [] = code := by simp
  simp only [Stored.program, Memory.copy_append h.pre, Memory.copy_append h.body, Memory.copy_append h.post, hcode, hdest,
    h.path]
  rfl

end Stencil.Compile

/-! ### Code that defers

Standard directives leave placeholders in the output, for sections and stacks, and fill them in at the end.
Joining literals changes neither. -/

namespace Stencil.Program

open Compile (mergeLiterals mergeLiterals_cons)

/-- Placeholders are filled in by the last of some instructions, if at all. -/
def FillsLast : List Instr → Prop
  | [] => True
  | i :: rest => (i.op = .resolve → rest = []) ∧ FillsLast rest

namespace FillsLast

theorem append {code code' : List Instr} (h : ∀ i ∈ code, i.op ≠ .resolve) (h' : FillsLast code') :
    FillsLast (code ++ code') := by
  induction code with
  | nil => exact h'
  | cons i code ih =>
    obtain ⟨hi, hcode⟩ := List.forall_mem_cons.mp h
    exact ⟨fun hop => absurd hop hi, ih hcode⟩

/-- Nothing comes after the instruction that fills placeholders in. -/
theorem ends {code : List Instr} (h : FillsLast code) {k : Nat} {i : Instr} (hi : code[k]? = some i)
    (hop : i.op = .resolve) : code[k + 1]? = none := by
  induction code generalizing k with
  | nil => rfl
  | cons j code ih =>
    cases k with
    | zero =>
      obtain rfl : j = i := Option.some.inj hi
      rw [h.1 hop]
      rfl
    | succ k => exact ih h.2 hi

end FillsLast

/-- Placeholders stand for sections, or for stacks, which have no fallback; they are filled in last. -/
structure Deferring (code : List Instr) : Prop where
  kinds : ∀ i ∈ code, i.op = .placeholder → i.key = "section" ∨ i.key = "stack" ∧ i.text = []
  last : FillsLast code

theorem deferring_mergeLiterals {code : List Instr} (h : Deferring code) : Deferring (mergeLiterals code) := by
  induction code with
  | nil => exact h
  | cons i rest ih =>
    have hrest : Deferring (mergeLiterals rest) :=
      ih ⟨fun j hj => h.kinds j (List.mem_cons_of_mem i hj), h.last.2⟩
    rcases mergeLiterals_cons i rest with heq | ⟨j, more, hmore, hi, hj, heq⟩
    · rw [heq]
      refine ⟨List.forall_mem_cons.mpr ⟨h.kinds i List.mem_cons_self, hrest.kinds⟩, fun hop => ?_, hrest.last⟩
      rw [h.last.1 hop]
      rfl
    · rw [hmore] at hrest
      rw [heq]
      refine ⟨List.forall_mem_cons.mpr ⟨fun hop => ?_, fun k hk => hrest.kinds k (List.mem_cons_of_mem j hk)⟩,
        fun hop => ?_, hrest.last.2⟩
      · simp [hi] at hop
      · simp [hi] at hop

end Stencil.Program
