import Stencil.Proofs.Program.Merge

/-! # Joined statements

Code of statements with its neighbouring literals joined is code of statements again
(`mergeLiterals_codeAll`): a literal before a region goes into the region, and in all other places
literals that meet are neighbours in one list of statements. -/

namespace Stencil

namespace Compile

section
variable {x : Instr} (hx : x.op ≠ .text)
include hx

theorem mergeLiterals_cons_other (b : List Instr) : mergeLiterals (x :: b) = x :: mergeLiterals b := by
  rcases mergeLiterals_cons x b with h | ⟨_, _, _, htext, _⟩
  · exact h
  · exact absurd htext hx

/-- Joining stops at an instruction that is no literal. -/
theorem mergeLiterals_append (a b : List Instr) :
    mergeLiterals (a ++ x :: b) = mergeLiterals a ++ x :: mergeLiterals b := by
  induction a with
  | nil => exact mergeLiterals_cons_other hx b
  | cons i a ih =>
    rw [List.cons_append, mergeLiterals, ih, mergeLiterals]
    cases mergeLiterals a with
    | nil => simp [hx]
    | cons j more => simp only [List.cons_append]; split <;> rfl

end

end Compile

namespace Statement

open Compile (mergeLiterals mergeLiterals_cons_other mergeLiterals_append)

mutual

/-- A statement with a literal in front, joined with one that comes first. -/
def afterLiteral (i : Instr) : Statement → List Statement
  | .plain j => if j.op = .text then [.plain { i with text := i.text ++ j.text }] else [.plain i, .plain j]
  | .region stop body => [.region stop (pushLiteral i body)]
  | .scope opening body closing => [.plain i, .scope opening body closing]
  | .branch test next leave body => [.plain i, .branch test next leave body]
  | .loop items item key again empty stop body otherwise =>
    [.plain i, .loop items item key again empty stop body otherwise]

/-- Statements with a literal in front. -/
def pushLiteral (i : Instr) : List Statement → List Statement
  | [] => [.plain i]
  | s :: ss => afterLiteral i s ++ ss

end

/-- A statement in front of joined ones. -/
def inFront : Statement → List Statement → List Statement
  | .plain i, ss => if i.op = .text then pushLiteral i ss else .plain i :: ss
  | s, ss => s :: ss

mutual

/-- A statement with the literals inside it joined. -/
def joined : Statement → Statement
  | .plain i => .plain i
  | .scope opening body closing => .scope opening (joinedAll body) closing
  | .region stop body => .region stop (joinedAll body)
  | .branch test next leave body => .branch test next leave (joinedAll body)
  | .loop items item key again empty stop body otherwise =>
    .loop items item key again empty stop (joinedAll body) (joinedAll otherwise)

/-- Statements with neighbouring literals joined. -/
def joinedAll : List Statement → List Statement
  | [] => []
  | s :: ss => inFront (joined s) (joinedAll ss)

end

section Literals
variable {i : Instr} (hi : i.op = .text)
include hi

mutual

theorem allWellFormed_afterLiteral {stop? : Option Int} : ∀ {s : Statement}, WellFormed stop? s →
    AllWellFormed stop? (afterLiteral i s)
  | .plain j, h => by
    rw [afterLiteral]
    split
    · exact ⟨by simp [WellFormed, hi, Op.isStraight], trivial⟩
    · exact ⟨by simp [WellFormed, hi, Op.isStraight], h, trivial⟩
  | .region stop body, h => by
    simp only [WellFormed] at h
    exact ⟨by simpa only [WellFormed] using allWellFormed_pushLiteral h, trivial⟩
  | .scope _ _ _, h | .branch _ _ _ _, h | .loop _ _ _ _ _ _ _ _, h =>
    ⟨by simp [WellFormed, hi, Op.isStraight], h, trivial⟩

theorem allWellFormed_pushLiteral {stop? : Option Int} : ∀ {ss : List Statement}, AllWellFormed stop? ss →
    AllWellFormed stop? (pushLiteral i ss)
  | [], _ => ⟨by simp [WellFormed, hi, Op.isStraight], trivial⟩
  | _ :: ss, h => (allWellFormed_append _ ss).mpr ⟨allWellFormed_afterLiteral h.1, h.2⟩

end

end Literals

theorem allWellFormed_inFront {s : Statement} {ss : List Statement} {stop? : Option Int} (hs : WellFormed stop? s)
    (hss : AllWellFormed stop? ss) : AllWellFormed stop? (inFront s ss) := by
  cases s with
  | plain i =>
    rw [inFront]
    split
    · rename_i hi
      exact allWellFormed_pushLiteral hi hss
    · exact ⟨hs, hss⟩
  | scope | region | branch | loop => exact ⟨hs, hss⟩

mutual

theorem WellFormed.joined {stop? : Option Int} : ∀ {s : Statement}, WellFormed stop? s → WellFormed stop? s.joined
  | .plain _, h => h
  | .scope _ _ _, h => by
    obtain ⟨hopen, hclose, hknown, hbody⟩ := h
    exact ⟨hopen, hclose, hknown, AllWellFormed.joinedAll hbody⟩
  | .region stop body, h => by
    simp only [WellFormed] at h
    simpa only [Statement.joined, WellFormed] using AllWellFormed.joinedAll h
  | .branch _ _ _ _, h => ⟨h.1, AllWellFormed.joinedAll h.2⟩
  | .loop _ _ _ _ _ _ _ _, h => ⟨AllWellFormed.joinedAll h.1, AllWellFormed.joinedAll h.2⟩

theorem AllWellFormed.joinedAll {stop? : Option Int} : ∀ {ss : List Statement}, AllWellFormed stop? ss →
    AllWellFormed stop? (joinedAll ss)
  | [], _ => trivial
  | _ :: _, h => allWellFormed_inFront h.1.joined h.2.joinedAll

end

/-- The instructions with a literal in front, joined with one that comes first. -/
def literalThen (i : Instr) : List Instr → List Instr
  | [] => [i]
  | j :: more => if j.op = .text then { i with text := i.text ++ j.text } :: more else i :: j :: more

theorem mergeLiterals_literal {i : Instr} (hi : i.op = .text) (rest : List Instr) :
    mergeLiterals (i :: rest) = literalThen i (mergeLiterals rest) := by
  rw [mergeLiterals]
  cases mergeLiterals rest with
  | nil => rfl
  | cons j more => simp [literalThen, hi]

mutual

theorem codeAll_afterLiteral {i : Instr} {stop? : Option Int} : ∀ {s : Statement}, WellFormed stop? s → ∀ rest,
    codeAll (afterLiteral i s) ++ rest = literalThen i (code s ++ rest)
  | .plain j, _, rest => by
    rw [afterLiteral]
    split <;> simp_all [code, literalThen]
  | .region stop body, h, rest => by
    simp only [WellFormed] at h
    simpa [afterLiteral, code] using codeAll_pushLiteral h (.mark stop :: rest) (by simp [Instr.mark])
  | .scope opening body closing, h, rest => by simp [afterLiteral, code, literalThen, h.1]
  | .branch test next leave body, _, rest => by simp [afterLiteral, code, literalThen, Instr.jumpIfNot]
  | .loop items item key again empty stop body otherwise, _, rest => by
    simp [afterLiteral, code, literalThen, rangeInstr]

/-- A literal in front is joined with the literal that the code starts with. -/
theorem codeAll_pushLiteral {i : Instr} {stop? : Option Int} : ∀ {ss : List Statement}, AllWellFormed stop? ss → ∀ rest,
    (∀ x ∈ rest.head?, x.op ≠ .text) → codeAll (pushLiteral i ss) ++ rest = literalThen i (codeAll ss ++ rest)
  | [], _, [], _ => rfl
  | [], _, x :: rest, h => by
    have hx : x.op ≠ .text := h x rfl
    simp [pushLiteral, code, literalThen, hx]
  | s :: ss, h, rest, _ => by
    simpa [pushLiteral] using codeAll_afterLiteral h.1 (codeAll ss ++ rest)

end

theorem op_mark_ne_text (l : Int) : (Instr.mark l).op ≠ .text := nofun

theorem op_jump_ne_text (l : Int) : (Instr.jump l).op ≠ .text := nofun

mutual

theorem mergeLiterals_code {stop? : Option Int} : ∀ {s : Statement}, WellFormed stop? s → ∀ {ss : List Statement},
    AllWellFormed stop? ss → mergeLiterals (codeAll ss) = codeAll (joinedAll ss) →
      mergeLiterals (code s ++ codeAll ss) = codeAll (inFront (joined s) (joinedAll ss))
  | .plain i, h, ss, hss, ih => by
    rw [joined, inFront]
    split
    · rename_i hi
      have hcode := codeAll_pushLiteral (i := i) hss.joinedAll [] nofun
      rw [List.append_nil, List.append_nil] at hcode
      rw [hcode, ← ih]
      exact mergeLiterals_literal hi _
    · rename_i hi
      simp [code, mergeLiterals_cons_other hi, ih]
  | .scope opening body closing, h, ss, _, ih => by
    obtain ⟨hopen, hclose, -, hbody⟩ := h
    have hopen : opening.op ≠ .text := by simp [hopen]
    have hclose : closing.op ≠ .text := by simp [hclose]
    simp [code, joined, inFront, mergeLiterals_cons_other hopen, mergeLiterals_append hclose, ih,
      mergeLiterals_codeAll hbody]
  | .region stop body, h, ss, _, ih => by
    simp only [WellFormed] at h
    simp [code, joined, inFront, mergeLiterals_append (op_mark_ne_text _), ih, mergeLiterals_codeAll h]
  | .branch test next leave body, h, ss, _, ih => by
    have htest : (Instr.jumpIfNot test next).op ≠ .text := nofun
    cases leave with
    | none =>
      simp [code, joined, inFront, mergeLiterals_cons_other htest, mergeLiterals_append (op_mark_ne_text _), ih,
        mergeLiterals_codeAll h.2]
    | some l =>
      simp [code, joined, inFront, mergeLiterals_cons_other htest, mergeLiterals_append (op_jump_ne_text _),
        mergeLiterals_cons_other (op_mark_ne_text _), ih, mergeLiterals_codeAll h.2]
  | .loop items item key again empty stop body otherwise, h, ss, _, ih => by
    have hrange : (rangeInstr items item key empty).op ≠ .text := nofun
    have hnext : (nextInstr again).op ≠ .text := nofun
    simp [code, joined, inFront, mergeLiterals_cons_other hrange, mergeLiterals_cons_other (op_mark_ne_text _),
      mergeLiterals_cons_other (op_jump_ne_text _), mergeLiterals_append hnext, mergeLiterals_append (op_mark_ne_text stop),
      ih, mergeLiterals_codeAll h.1, mergeLiterals_codeAll h.2]

/-- Joining the literals of code is joining those of its statements. -/
theorem mergeLiterals_codeAll {stop? : Option Int} : ∀ {ss : List Statement}, AllWellFormed stop? ss →
    mergeLiterals (codeAll ss) = codeAll (joinedAll ss)
  | [], _ => rfl
  | _ :: _, h => mergeLiterals_code h.1 h.2 (mergeLiterals_codeAll h.2)

end

end Statement

end Stencil
