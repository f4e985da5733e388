import Stencil.Render.Machine
import Stencil.Proofs.Program.Structure

/-! # Structured programs run without faults

A frame has a fault of its own when the machine cannot go on there whatever evaluator and loader do:
a scope is closed that the program did not open, a loop is advanced that does not run, an operation
or a mode is unknown, or the program ends with scopes open. Every frame that a run of structured code
goes through fits its place (`Fits`): as many scopes and loops are open as the shape of the place says.
Such a frame has no fault. -/

namespace Stencil.Render

open Program (Structured)

/-- The fault that a frame has by itself. -/
def Frame.fault? (p : Program) (f : Frame) : Option Failure :=
  match p.instrs[f.pc]? with
  | none => if f.opened = 0 then none else some (.leftOpen p.name f.opened)
  | some i =>
    match i.op with
    | .exitScope =>
      if f.opened = 0 then some .exitWithoutEnter
      else if i.mode.isKnown then none
      else some (.unknownMode i.mode)
    | .next => if f.loops = [] then some .nextWithoutRange else none
    | .unknown _ => some (.unknownOp i.op)
    | _ => none

/-- The frames that a run goes through, each with the steps left there. -/
inductive Visits (host : Host) (p : Program) : Nat → Frame → Nat → Frame → Prop
  | here {fuel : Nat} {f : Frame} : Visits host p fuel f fuel f
  | step {fuel n : Nat} {f f' g : Frame} {i : Instr} (hi : p.instrs[f.pc]? = some i)
      (hs : step host (fun q m => exec host fuel q { state := m }) p i f = .next f')
      (rest : Visits host p fuel f' n g) : Visits host p (fuel + 1) f n g

theorem exec_of_visits {host : Host} {p : Program} {fuel n : Nat} {f g : Frame} (h : Visits host p fuel f n g) :
    exec host fuel p f = exec host n p g := by
  induction h with
  | here => rfl
  | step hi hs _ ih => rw [exec, hi]; simp only [hs]; exact ih

/-- A run that comes to a frame with a fault fails with it. -/
theorem exec_of_fault? {host : Host} {p : Program} {fuel : Nat} {f : Frame} {e : Failure} (h : f.fault? p = some e) :
    (exec host (fuel + 1) p f).1 = .error e ∨
      ∃ i, p.instrs[f.pc]? = some i ∧ (exec host (fuel + 1) p f).1 = .error (.instruction p.name f.pc i e) := by
  unfold Frame.fault? at h
  cases hi : p.instrs[f.pc]? with
  | none =>
    simp only [hi] at h
    split at h
    · cases h
    · rename_i hopen
      left
      simp [exec, hi, Frame.finish, hopen, Option.some.inj h]
  | some i =>
    right
    refine ⟨i, rfl, ?_⟩
    simp only [hi] at h
    cases hop : i.op <;> simp only [hop, reduceCtorEq] at h
    · split at h
      · rename_i hopen
        simp [exec, hi, step, hop, hopen, Option.some.inj h]
      · rename_i hopen
        obtain ⟨opened, hopened⟩ := Nat.exists_eq_succ_of_ne_zero hopen
        split at h
        · cases h
        · rename_i hmode
          cases hm : i.mode <;> simp only [hm, ScopeMode.isKnown, not_true_eq_false] at hmode
          simp [exec, hi, step, hop, hopened, closeScope, hm, ← Option.some.inj h]
    · split at h
      · rename_i hloops
        simp [exec, hi, step, hop, hloops, Option.some.inj h]
      · cases h
    · simp [exec, hi, step, hop, ← Option.some.inj h]

/-- A run of the program comes to a fault of the program's own. -/
def FailsItself (host : Host) (p : Program) (m : State) : Prop :=
  ∃ n g e, Visits host p host.stepLimit { state := m } n g ∧ g.fault? p = some e

/-! ### What a step does to the place and what is open -/

/-- Where a step leads, and what it opens and closes. -/
inductive Moves (p : Program) (i : Instr) (f f' : Frame) : Prop
  | forward (hop : i.op.isStraight = true ∨ i.op = .label ∨ i.op = .jumpIfNot) (hpc : f'.pc = f.pc + 1)
      (hopened : f'.opened = f.opened) (hloops : f'.loops.length = f.loops.length)
  | jump (hop : i.op = .jump ∨ i.op = .jumpIfNot ∨ i.op = .range) (hpc : f'.pc = p.target i.label + 1)
      (hopened : f'.opened = f.opened) (hloops : f'.loops.length = f.loops.length)
  | enter (hop : i.op = .enterScope) (hpc : f'.pc = f.pc + 1) (hopened : f'.opened = f.opened + 1)
      (hloops : f'.loops.length = f.loops.length)
  | exit (hop : i.op = .exitScope) (hpc : f'.pc = f.pc + 1) (hopened : f.opened = f'.opened + 1)
      (hloops : f'.loops.length = f.loops.length)
  | start (hop : i.op = .range) (hpc : f'.pc = f.pc + 1) (hopened : f'.opened = f.opened)
      (hloops : f'.loops.length = f.loops.length + 1)
  | again (hop : i.op = .next) (hpc : f'.pc = p.target i.label + 1) (hopened : f'.opened = f.opened)
      (hloops : f'.loops.length = f.loops.length)
  | finish (hop : i.op = .next) (hpc : f'.pc = f.pc + 1) (hopened : f'.opened = f.opened)
      (hloops : f.loops.length = f'.loops.length + 1)

section
variable {host : Host} {run : Program → State → Outcome} {p : Program} {i : Instr} {f f' : Frame}

theorem step_of_isStraight (hop : i.op.isStraight = true) (h : step host run p i f = .next f') :
    ∃ m, f' = { f with pc := f.pc + 1, state := m } := by
  cases hi : i.op <;> simp only [hi, Op.isStraight, Bool.false_eq_true] at hop <;> simp only [step, hi] at h
  case text | comment | placeholder | resolve => exact ⟨_, (Step.next.inj h).symm⟩
  case emit | set | bind =>
    split at h
    · cases h
    · exact ⟨_, (Step.next.inj h).symm⟩
  case render =>
    split at h
    · cases h
    · split at h
      · cases h
      · exact ⟨_, (Step.next.inj h).symm⟩

theorem moves_of_exit (hop : i.op = .exitScope) (h : step host run p i f = .next f') : Moves p i f f' := by
  simp only [step, hop] at h
  split at h
  · cases h
  · rename_i opened hopened
    split at h
    · cases h
    · cases h
      exact .exit hop rfl hopened (by simp)

theorem moves_of_range (hop : i.op = .range) (h : step host run p i f = .next f') : Moves p i f f' := by
  simp only [step, hop] at h
  split at h
  · cases h
  · split at h
    · cases h
    · rename_i entries _
      cases h
      cases entries with
      | nil => exact .jump (by simp [hop]) rfl rfl rfl
      | cons e rest => exact .start hop rfl rfl rfl

theorem moves_of_next (hop : i.op = .next) (h : step host run p i f = .next f') : Moves p i f f' := by
  simp only [step, hop] at h
  split at h
  · cases h
  · rename_i l others hloops
    split at h
    · cases h
    · cases h
      unfold advanceLoop
      split
      · exact .finish hop rfl rfl (by simp [hloops])
      · exact .again hop rfl rfl (by simp [hloops])

theorem moves_of_step (h : step host run p i f = .next f') : Moves p i f f' := by
  by_cases hstraight : i.op.isStraight = true
  · obtain ⟨m, rfl⟩ := step_of_isStraight hstraight h
    exact .forward (Or.inl hstraight) rfl rfl rfl
  · cases hop : i.op <;> simp only [hop, Op.isStraight, not_true_eq_false] at hstraight
    case label =>
      simp only [step, hop, Step.next.injEq] at h
      subst h
      exact .forward (by simp [hop]) rfl rfl rfl
    case jump =>
      simp only [step, hop, Step.next.injEq] at h
      subst h
      exact .jump (by simp [hop]) rfl rfl rfl
    case jumpIfNot =>
      simp only [step, hop] at h
      split at h
      · cases h
      · split at h <;> cases h
        · exact .forward (by simp [hop]) rfl rfl rfl
        · exact .jump (by simp [hop]) rfl rfl rfl
    case enterScope =>
      simp only [step, hop, Step.next.injEq] at h
      subst h
      exact .enter hop rfl rfl rfl
    case exitScope => exact moves_of_exit hop h
    case range => exact moves_of_range hop h
    case next => exact moves_of_next hop h
    case unknown code =>
      simp only [step, hop, reduceCtorEq] at h

end

/-! ### Frames that fit their place -/

/-- As many scopes and loops are open in a frame as the shape of its place says. -/
structure Frame.Fits (p : Program) (f : Frame) : Prop where
  inside : f.pc ≤ p.instrs.length
  opened : f.opened = (p.shapeAt f.pc).scopes
  loops : f.loops.length = (p.shapeAt f.pc).loops

theorem Frame.Fits.step {p : Program} {i : Instr} {f f' : Frame} (hp : Structured p.instrs) (h : f.Fits p)
    (hi : p.instrs[f.pc]? = some i) (hm : Moves p i f f') : f'.Fits p := by
  have hallow : (p.shapeAt f.pc).Allows (Shape.marks {} p.instrs) i := Program.sound_get hp.sound hi
  have hlt : f.pc < p.instrs.length := (List.getElem?_eq_some_iff.mp hi).1
  have hsucc := Program.shapeAt_succ hi
  -- a frame that goes on with the next instruction has the shape after this one
  have forward (hpc : f'.pc = f.pc + 1) (ho : f'.opened = ((p.shapeAt f.pc).after i).scopes)
      (hl : f'.loops.length = ((p.shapeAt f.pc).after i).loops) : f'.Fits p :=
    ⟨by omega, by rw [hpc, hsucc, ho], by rw [hpc, hsucc, hl]⟩
  -- a frame that jumps keeps its shape
  have jump (hl : (i.label, p.shapeAt f.pc) ∈ Shape.marks {} p.instrs) (hpc : f'.pc = p.target i.label + 1)
      (ho : f'.opened = f.opened) (hlen : f'.loops.length = f.loops.length) : f'.Fits p := by
    obtain ⟨hin, hshape⟩ := hp.shapeAt_target hl
    exact ⟨by omega, by rw [hpc, hshape, ho, h.opened], by rw [hpc, hshape, hlen, h.loops]⟩
  cases hm with
  | forward hop hpc ho hl =>
    have hafter : (p.shapeAt f.pc).after i = p.shapeAt f.pc := by
      rcases hop with hop | hop | hop
      · exact Shape.after_of_isStraight hop
      · simp [Shape.after, hop]
      · simp [Shape.after, hop]
    exact forward hpc (by rw [ho, hafter, h.opened]) (by rw [hl, hafter, h.loops])
  | jump hop hpc ho hl =>
    refine jump ?_ hpc ho hl
    rcases hop with hop | hop | hop <;> simpa [Shape.Allows, hop] using hallow
  | enter hop hpc ho hl =>
    exact forward hpc (by simp [Shape.after, hop, ho, h.opened]) (by simp [Shape.after, hop, hl, h.loops])
  | exit hop hpc ho hl =>
    exact forward hpc (by simp [Shape.after, hop, ← h.opened, ho]) (by simp [Shape.after, hop, hl, h.loops])
  | start hop hpc ho hl =>
    exact forward hpc (by simp [Shape.after, hop, ho, h.opened]) (by simp [Shape.after, hop, hl, h.loops])
  | again hop hpc ho hl =>
    refine jump ?_ hpc ho hl
    simp only [Shape.Allows, hop] at hallow
    exact hallow.1
  | finish hop hpc ho hl =>
    exact forward hpc (by simp [Shape.after, hop, ho, h.opened]) (by simp [Shape.after, hop, ← h.loops, hl])

theorem Frame.Fits.visits {host : Host} {p : Program} {fuel n : Nat} {f g : Frame} (hp : Structured p.instrs)
    (h : f.Fits p) (hv : Visits host p fuel f n g) : g.Fits p := by
  induction hv with
  | here => exact h
  | step hi hs _ ih => exact ih (h.step hp hi (moves_of_step hs))

theorem Frame.Fits.fault?_eq_none {p : Program} {f : Frame} (hp : Structured p.instrs) (h : f.Fits p) :
    f.fault? p = none := by
  unfold Frame.fault?
  cases hi : p.instrs[f.pc]? with
  | none =>
    have hend : f.pc = p.instrs.length := by
      have := List.getElem?_eq_none_iff.mp hi
      have := h.inside
      omega
    have hopened : f.opened = 0 := by
      rw [h.opened, hend, Program.shapeAt, List.take_length, hp.closed]
    simp [hopened]
  | some i =>
    have hallow : (p.shapeAt f.pc).Allows (Shape.marks {} p.instrs) i := Program.sound_get hp.sound hi
    cases hop : i.op <;> simp only [Shape.Allows, hop] at hallow ⊢
    · have hopened : f.opened ≠ 0 := by
        rw [h.opened]
        omega
      simp [hopened, hallow.2]
    · have hloops : f.loops ≠ [] := fun hnil => by
        have := h.loops
        simp only [hnil, List.length_nil] at this
        omega
      simp [hloops]

/-- A run of structured code never comes to a fault of its own. -/
theorem not_failsItself {p : Program} (hp : Structured p.instrs) (host : Host) (m : State) :
    ¬FailsItself host p m := by
  rintro ⟨n, g, e, hv, he⟩
  have hstart : Frame.Fits p { state := m } := ⟨Nat.zero_le _, rfl, rfl⟩
  rw [(hstart.visits hp hv).fault?_eq_none hp] at he
  cases he

end Stencil.Render
