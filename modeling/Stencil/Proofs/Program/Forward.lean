import Stencil.Proofs.Render.Runs

/-! # Directions of jumps

In code of well formed statements only the end of a turn of a loop jumps back; all other jumps lead to places
after them (`directed_codeAll`). -/

namespace Stencil

open Render (CodeAt)
open Program (marked)

/-- The instruction at a place jumps in its direction. -/
def Program.Directed (p : Program) (pc : Nat) (i : Instr) : Prop :=
  match i.op with
  | .jump | .jumpIfNot | .range => pc < p.target i.label
  | .next => p.target i.label < pc
  | _ => True

/-- All instructions of some code at a place jump in their directions. -/
def Program.AllDirected (p : Program) (pc : Nat) : List Instr → Prop
  | [] => True
  | i :: code => p.Directed pc i ∧ p.AllDirected (pc + 1) code

namespace Program
variable {p : Program} {pc : Nat}

theorem allDirected_append (a b : List Instr) :
    p.AllDirected pc (a ++ b) ↔ p.AllDirected pc a ∧ p.AllDirected (pc + a.length) b := by
  induction a generalizing pc with
  | nil => simp [AllDirected]
  | cons i a ih => simp only [List.cons_append, AllDirected, ih, List.length_cons, Nat.add_assoc, Nat.add_comm 1, and_assoc]

theorem AllDirected.get {code : List Instr} (h : p.AllDirected pc code) {k : Nat} {i : Instr}
    (hi : code[k]? = some i) : p.Directed (pc + k) i := by
  induction code generalizing pc k with
  | nil => cases hi
  | cons j code ih =>
    cases k with
    | zero => exact Option.some.inj hi ▸ h.1
    | succ k => exact Nat.add_right_comm pc 1 k ▸ ih h.2 hi

end Program

namespace Statement

variable {p : Program}

mutual

theorem directed_code (hnodup : (marked p.instrs).Nodup) {stop? : Option Int} : ∀ (s : Statement) (pc : Nat),
    WellFormed stop? s → CodeAt p pc (code s) → (∀ stop ∈ stop?, pc + (code s).length ≤ p.target stop) →
      p.AllDirected pc (code s)
  | .plain i, pc, h, _, _ => by
    simp only [WellFormed] at h
    refine ⟨?_, trivial⟩
    cases hop : i.op <;> simp_all [Op.isStraight, Program.Directed]
  | .scope opening body closing, pc, h, hcode, _ => by
    obtain ⟨hopen, hclose, -, hbody⟩ := h
    have hinner := directed_codeAll hnodup body (pc + 1) hbody hcode.tail.left nofun
    refine ⟨by simp [Program.Directed, hopen], (Program.allDirected_append _ _).mpr ⟨hinner, ?_, trivial⟩⟩
    simp [Program.Directed, hclose]
  | .region stop body, pc, h, hcode, _ => by
    simp only [WellFormed] at h
    have hstop : p.target stop = pc + (codeAll body).length := hcode.right.target hnodup
    have hinner := directed_codeAll hnodup body pc h hcode.left fun l hl =>
      Nat.le_of_eq (by rw [← Option.some.inj hl, hstop])
    exact (Program.allDirected_append _ _).mpr ⟨hinner, trivial, trivial⟩
  | .branch test next leave body, pc, h, hcode, hstop => by
    obtain ⟨hleave, hbody⟩ := h
    have hinner := directed_codeAll hnodup body (pc + 1) hbody hcode.tail.left nofun
    have hnext : p.target next = pc + 1 + (codeAll body).length + (leave.toList.map Instr.jump).length :=
      hcode.tail.right.right.target hnodup
    refine ⟨?_, (Program.allDirected_append _ _).mpr ⟨hinner, (Program.allDirected_append _ _).mpr ⟨?_, trivial, trivial⟩⟩⟩
    · simp only [Program.Directed, Instr.jumpIfNot, hnext]
      omega
    -- a branch that leaves jumps to the end of the region around, behind all of its own code
    · cases leave with
      | none => trivial
      | some l =>
        have hl := hstop l (hleave.resolve_left nofun).symm
        refine ⟨?_, trivial⟩
        simp only [code, List.length_cons, List.length_append, List.length_map, Option.toList, List.length_nil] at hl
        simp only [Program.Directed, Instr.jump]
        omega
  | .loop items item key again empty stop body otherwise, pc, h, hcode, _ => by
    obtain ⟨hbody, hother⟩ := h
    have hagain : p.target again = pc + 1 := hcode.tail.target hnodup
    have hend := hcode.tail.tail.right
    have hempty : p.target empty = pc + 1 + 1 + (codeAll body).length + 1 + 1 := hend.tail.tail.target hnodup
    have hstop : p.target stop = pc + 1 + 1 + (codeAll body).length + 1 + 1 + 1 + (codeAll otherwise).length :=
      hend.tail.tail.tail.right.target hnodup
    have hinner := directed_codeAll hnodup body (pc + 1 + 1) hbody hcode.tail.tail.left nofun
    have hinner' := directed_codeAll hnodup otherwise _ hother hend.tail.tail.tail.left nofun
    -- of the jumps of a loop only that of `next` goes back
    refine ⟨?_, trivial, (Program.allDirected_append _ _).mpr ⟨hinner, ?_, ?_, trivial,
      (Program.allDirected_append _ _).mpr ⟨hinner', trivial, trivial⟩⟩⟩
    · simp only [Program.Directed, rangeInstr, hempty]
      omega
    · simp only [Program.Directed, nextInstr, hagain]
      omega
    · simp only [Program.Directed, Instr.jump, hstop]
      omega

/-- The jumps of well formed statements go forward, those at the ends of turns back. -/
theorem directed_codeAll (hnodup : (marked p.instrs).Nodup) {stop? : Option Int} : ∀ (ss : List Statement) (pc : Nat),
    AllWellFormed stop? ss → CodeAt p pc (codeAll ss) → (∀ stop ∈ stop?, pc + (codeAll ss).length ≤ p.target stop) →
      p.AllDirected pc (codeAll ss)
  | [], _, _, _, _ => trivial
  | s :: ss, pc, h, hcode, hstop => by
    rw [codeAll_cons, List.length_append] at hstop
    have hs := directed_code hnodup s pc h.1 hcode.left fun stop hmem => by
      have := hstop stop hmem
      omega
    have hss := directed_codeAll hnodup ss _ h.2 hcode.right fun stop hmem => by
      have := hstop stop hmem
      omega
    exact (Program.allDirected_append _ _).mpr ⟨hs, hss⟩

end

end Statement

/-- The instructions are the code of well formed statements, with each label at one place. -/
def Program.IsCode (p : Program) : Prop :=
  ∃ ss, p.instrs = Statement.codeAll ss ∧ Statement.AllWellFormed none ss ∧ (marked p.instrs).Nodup

theorem Program.IsCode.directed {p : Program} (h : p.IsCode) {pc : Nat} {i : Instr} (hi : p.instrs[pc]? = some i) :
    p.Directed pc i := by
  obtain ⟨ss, hcode, hwell, hnodup⟩ := h
  have hall := Statement.directed_codeAll hnodup ss 0 hwell (hcode ▸ CodeAt.whole p) nofun
  rw [← hcode] at hall
  exact Nat.zero_add pc ▸ hall.get hi

end Stencil
