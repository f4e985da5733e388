import Stencil.Proofs.Program.Structure

/-! # Comments in code

Comments do nothing. Code of statements without its comments is the code of the statements without theirs
(`codeAll_uncommentedAll`). -/

namespace Stencil

namespace Program

/-- Code without its comments. -/
def uncommented (code : List Instr) : List Instr := code.filter fun i => i.op ≠ .comment

@[simp] theorem uncommented_nil : uncommented [] = [] := rfl

@[simp] theorem uncommented_append (a b : List Instr) : uncommented (a ++ b) = uncommented a ++ uncommented b :=
  List.filter_append a b

@[simp] theorem uncommented_cons (i : Instr) (rest : List Instr) :
    uncommented (i :: rest) = if i.op = .comment then uncommented rest else i :: uncommented rest := by
  by_cases hi : i.op = .comment <;> simp [uncommented, hi]

/-- Labels are not marked by comments. -/
theorem marked_uncommented (code : List Instr) : marked (uncommented code) = marked code := by
  induction code with
  | nil => rfl
  | cons i rest ih =>
    by_cases hi : i.op = .comment <;> simp [marked_cons, hi, ih]

end Program

namespace Statement

def isComment : Statement → Bool
  | .plain i => i.op = .comment
  | _ => false

mutual

/-- A statement without the comments inside it. -/
def uncommented : Statement → Statement
  | .plain i => .plain i
  | .scope opening body closing => .scope opening (uncommentedAll body) closing
  | .region stop body => .region stop (uncommentedAll body)
  | .branch test next leave body => .branch test next leave (uncommentedAll body)
  | .loop items item key again empty stop body otherwise =>
    .loop items item key again empty stop (uncommentedAll body) (uncommentedAll otherwise)

def uncommentedAll : List Statement → List Statement
  | [] => []
  | s :: ss => if s.isComment then uncommentedAll ss else s.uncommented :: uncommentedAll ss

end

mutual

theorem WellFormed.uncommented {stop? : Option Int} : ∀ {s : Statement}, WellFormed stop? s →
    WellFormed stop? s.uncommented
  | .plain _, h => h
  | .scope _ _ _, h => ⟨h.1, h.2.1, h.2.2.1, AllWellFormed.uncommentedAll h.2.2.2⟩
  | .region stop body, h => by
    simp only [WellFormed] at h
    simpa only [Statement.uncommented, WellFormed] using AllWellFormed.uncommentedAll h
  | .branch _ _ _ _, h => ⟨h.1, AllWellFormed.uncommentedAll h.2⟩
  | .loop _ _ _ _ _ _ _ _, h => ⟨AllWellFormed.uncommentedAll h.1, AllWellFormed.uncommentedAll h.2⟩

theorem AllWellFormed.uncommentedAll {stop? : Option Int} : ∀ {ss : List Statement}, AllWellFormed stop? ss →
    AllWellFormed stop? (uncommentedAll ss)
  | [], _ => trivial
  | s :: _, h => by
    rw [Statement.uncommentedAll]
    split
    · exact AllWellFormed.uncommentedAll h.2
    · exact ⟨WellFormed.uncommented h.1, AllWellFormed.uncommentedAll h.2⟩

end

mutual

theorem code_uncommented {stop? : Option Int} : ∀ {s : Statement}, WellFormed stop? s → s.isComment = false →
    code s.uncommented = Program.uncommented (code s)
  | .plain i, _, hplain => by
    have hi : i.op ≠ .comment := by simpa [isComment] using hplain
    simp [Statement.uncommented, code, hi]
  | .scope opening body closing, h, _ => by
    obtain ⟨hopen, hclose, -, hbody⟩ := h
    simp [Statement.uncommented, code, hopen, hclose, codeAll_uncommentedAll hbody]
  | .region stop body, h, _ => by
    simp only [WellFormed] at h
    simp [Statement.uncommented, code, codeAll_uncommentedAll h, Instr.mark]
  | .branch test next leave body, h, _ => by
    cases leave <;>
      simp [Statement.uncommented, code, codeAll_uncommentedAll h.2, Instr.jumpIfNot, Instr.jump, Instr.mark]
  | .loop items item key again empty stop body otherwise, h, _ => by
    simp [Statement.uncommented, code, codeAll_uncommentedAll h.1, codeAll_uncommentedAll h.2, rangeInstr, nextInstr,
      Instr.jump, Instr.mark]

theorem codeAll_uncommentedAll {stop? : Option Int} : ∀ {ss : List Statement}, AllWellFormed stop? ss →
    codeAll (uncommentedAll ss) = Program.uncommented (codeAll ss)
  | [], _ => rfl
  | s :: ss, h => by
    have hrest := codeAll_uncommentedAll h.2
    rw [uncommentedAll]
    cases hcomment : s.isComment with
    | true =>
      cases s with
      | plain i =>
        have hi : i.op = .comment := by simpa [isComment] using hcomment
        simp [code, hi, hrest]
      | scope | region | branch | loop => cases hcomment
    | false => simp [code_uncommented h.1 hcomment, hrest]

end

end Statement

end Stencil
