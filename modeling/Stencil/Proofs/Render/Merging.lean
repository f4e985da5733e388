import Stencil.Proofs.Program.Merge
import Stencil.Proofs.Render.Runs

/-! # Runs of joined literals

What a step does to a frame does not depend on where its instruction stands (`Effect`). So a program
and the same program with its literals joined go through related frames: the joined one waits while
the other writes all but the last of some literals (`Follows`). -/

namespace Stencil.Render

open Stencil.Compile (mergeLiterals mergeLiterals_cons)

/-! ### Effects of instructions -/

/-- What a step does apart from the place it leads to. -/
inductive Effect where
  | forward (f : Frame)
  | jump (f : Frame)
  | fail (e : Failure) (f : Frame)
  | cancel (f : Frame)

/-- The step with an effect, for an instruction at a place. -/
def Effect.step (p : Program) (i : Instr) (pc : Nat) : Effect → Step
  | .forward f => .next { f with pc := pc + 1 }
  | .jump f => .next { f with pc := p.target i.label + 1 }
  | .fail e f => .stop (.instruction p.name pc i e) { f with pc }
  | .cancel f => .stop .canceled { f with pc }

/-- An instruction does the same to a frame at every place. -/
def HasEffect (host : Host) (run : Program → State → Outcome) (i : Instr) (f : Frame) : Prop :=
  ∃ eff : Effect, (∀ p pc, step host run p i { f with pc } = eff.step p i pc) ∧
    ∀ f', eff = .jump f' → i.op.jumps = true

namespace HasEffect
variable {host : Host} {run : Program → State → Outcome} {i : Instr} {f : Frame}

theorem forward (g : Frame) (h : ∀ p pc, step host run p i { f with pc } = .next { g with pc := pc + 1 }) :
    HasEffect host run i f :=
  ⟨.forward g, h, by rintro f' ⟨⟩⟩

theorem jump (g : Frame) (hop : i.op.jumps = true)
    (h : ∀ p pc, step host run p i { f with pc } = .next { g with pc := p.target i.label + 1 }) : HasEffect host run i f :=
  ⟨.jump g, h, fun _ _ => hop⟩

theorem fail (e : Failure) (g : Frame)
    (h : ∀ p pc, step host run p i { f with pc } = .stop (.instruction p.name pc i e) { g with pc }) :
    HasEffect host run i f :=
  ⟨.fail e g, h, by rintro f' ⟨⟩⟩

theorem cancel (g : Frame) (h : ∀ p pc, step host run p i { f with pc } = .stop .canceled { g with pc }) :
    HasEffect host run i f :=
  ⟨.cancel g, h, by rintro f' ⟨⟩⟩

end HasEffect

-- The cases are split as in `step`, down to where it answers: only there the effect can be named before the place is.
theorem hasEffect (host : Host) (run : Program → State → Outcome) (i : Instr) (f : Frame) : HasEffect host run i f := by
  cases hop : i.op with
  | text => exact .forward { f with state := f.state.write i.text } fun p pc => by simp [step, hop]
  | comment | label => exact .forward f fun p pc => by simp [step, hop]
  | placeholder =>
    exact .forward { f with state := f.state.placeholder i.key i.name i.text } fun p pc => by simp [step, hop]
  | resolve => exact .forward { f with state := f.state.resolve } fun p pc => by simp [step, hop]
  | unknown code => exact .fail (.unknownOp i.op) f fun p pc => by simp [step, hop]
  | enterScope =>
    exact .forward { f with opened := f.opened + 1, state := f.state.enter { isComponent := i.mode = .component } }
      fun p pc => by simp [step, hop]
  | jump => exact .jump f (hop ▸ rfl) fun p pc => by simp [step, hop]
  | emit =>
    cases hv : f.state.eval host i.expr with
    | error e => exact .fail e f fun p pc => by simp [step, hop, hv]
    | ok v =>
      exact .forward { f with
          state := if i.escape then f.state.writeEscaped v.rendered else f.state.write v.rendered }
        fun p pc => by simp [step, hop, hv]
  | set =>
    cases hv : f.state.eval host i.expr with
    | error e => exact .fail e f fun p pc => by simp [step, hop, hv]
    | ok v => exact .forward { f with state := f.state.set i.name v } fun p pc => by simp [step, hop, hv]
  | bind =>
    cases hv : f.state.evalBindings host i.expr with
    | error e => exact .fail e f fun p pc => by simp [step, hop, hv]
    | ok v => exact .forward { f with state := f.state.setAll v } fun p pc => by simp [step, hop, hv]
  | jumpIfNot =>
    cases hv : f.state.eval host i.expr with
    | error e => exact .fail e f fun p pc => by simp [step, hop, hv]
    | ok v =>
      cases ht : v.truthy with
      | true => exact .forward f fun p pc => by simp [step, hop, hv, ht]
      | false => exact .jump f (hop ▸ rfl) fun p pc => by simp [step, hop, hv, ht]
  | range =>
    cases hv : f.state.eval host i.expr with
    | error e => exact .fail e f fun p pc => by simp [step, hop, hv]
    | ok v =>
      cases he : v.entries? with
      | none => exact .fail (loopFailure v) f fun p pc => by simp [step, hop, hv, he]
      | some entries =>
        cases entries with
        | nil => exact .jump f (hop ▸ rfl) fun p pc => by simp [step, hop, hv, he, startLoop]
        | cons e rest =>
          let l : Loop :=
            { rest, index := 0, length := rest.length + 1, level := some f.state.outer.length, item := i.name, key := i.key }
          exact .forward { f with loops := l :: f.loops, state := l.bind e f.state }
            fun p pc => by simp [step, hop, hv, he, startLoop, l]
  | next =>
    cases hl : f.loops with
    | nil => exact .fail .nextWithoutRange f fun p pc => by simp [step, hop, hl]
    | cons l others =>
      cases hc : f.state.shared.session.canceled with
      | true => exact .cancel f fun p pc => by simp [step, hop, hl, hc]
      | false =>
        cases hr : l.rest with
        | nil =>
          exact .forward { f with loops := others } fun p pc => by simp [step, hop, hl, hc, advanceLoop, hr]
        | cons e rest =>
          let l' : Loop := { l with rest, index := l.index + 1 }
          exact .jump { f with loops := l' :: others, state := l'.bind e f.state } (hop ▸ rfl)
            fun p pc => by simp [step, hop, hl, hc, advanceLoop, hr, l']
  | exitScope =>
    cases ho : f.opened with
    | zero => exact .fail .exitWithoutEnter f fun p pc => by simp [step, hop, ho]
    | succ opened =>
      rcases hc : closeScope host run i f.state with ⟨e | u, m⟩
      · exact .fail e { f with opened, loops := f.loops.map (Loop.detach f.state.outer.length), state := m }
          fun p pc => by simp [step, hop, ho, hc]
      · exact .forward { f with opened, loops := f.loops.map (Loop.detach f.state.outer.length), state := m }
          fun p pc => by simp [step, hop, ho, hc]
  | render =>
    cases hv : templateVars host i f.state with
    | error e => exact .fail e f fun p pc => by simp only [step, hop, hv]
    | ok vars =>
      rcases hr : renderTemplate host run i.name vars f.state with ⟨e | u, m⟩
      · exact .fail e { f with state := m } fun p pc => by simp only [step, hop, hv, hr]
      · exact .forward { f with state := m } fun p pc => by simp only [step, hop, hv, hr]

/-- Jumps render no other template. -/
theorem step_of_jumps {i : Instr} (hop : i.op.jumps = true) (host : Host) (run run' : Program → State → Outcome)
    (p : Program) (f : Frame) : step host run p i f = step host run' p i f := by
  cases h : i.op <;> simp only [h, Op.jumps, Bool.false_eq_true] at hop <;> simp only [step, h]

section
variable {host : Host} {p q : Program} {i : Instr} {f f' : Frame}

/-- The same instruction at another place goes forward or jumps as well. -/
theorem step_moved (hs : ∀ run, step host run p i f = .next f') (pc : Nat) :
    (f'.pc = f.pc + 1 ∧ ∀ run, step host run q i { f with pc } = .next { f' with pc := pc + 1 }) ∨
      (i.op.jumps = true ∧ f'.pc = p.target i.label + 1 ∧
        ∀ run, step host run q i { f with pc } = .next { f' with pc := q.target i.label + 1 }) := by
  by_cases hop : i.op.jumps = true
  · obtain ⟨eff, heff, -⟩ := hasEffect host (fun _ m => (.ok (), m)) i f
    have hp := (heff p f.pc).symm.trans (hs _)
    have hq : ∀ run, step host run q i { f with pc } = eff.step q i pc := fun run =>
      (step_of_jumps hop host run _ q _).trans (heff q pc)
    cases eff with
    | forward g =>
      cases hp
      exact Or.inl ⟨rfl, hq⟩
    | jump g =>
      cases hp
      exact Or.inr ⟨hop, rfl, hq⟩
    | fail e g | cancel g => cases hp
  · have hforward : ∀ run, f'.pc = f.pc + 1 ∧ step host run q i { f with pc } = .next { f' with pc := pc + 1 } := by
      intro run
      obtain ⟨eff, heff, hjump⟩ := hasEffect host run i f
      have hp := (heff p f.pc).symm.trans (hs run)
      rw [heff q pc]
      cases eff with
      | forward g =>
        cases hp
        exact ⟨rfl, rfl⟩
      | jump g => exact absurd (hjump g rfl) hop
      | fail e g | cancel g => cases hp
    exact Or.inl ⟨(hforward fun _ m => (.ok (), m)).1, fun run => (hforward run).2⟩

/-- The same instruction at another place fails as well. -/
theorem stop_moved {e : Failure} (hs : ∀ run, step host run p i f = .stop (.instruction p.name f.pc i e) f') (pc : Nat)
    (run : Program → State → Outcome) :
    step host run q i { f with pc } = .stop (.instruction q.name pc i e) { f' with pc } := by
  obtain ⟨eff, heff, -⟩ := hasEffect host run i f
  have hp := (heff p f.pc).symm.trans (hs run)
  rw [heff q pc]
  cases eff with
  | fail e' g =>
    cases hp
    rfl
  | forward g | jump g | cancel g => cases hp

end

/-! ### Places in joined code -/

/-- A mark stands in the joined code as well, before the joined rest. -/
theorem exists_mark_mergeLiterals (l : Int) : ∀ is : List Instr, l ∈ Program.marked is →
    ∃ k k' m rest, is.findIdx? (fun i => i.op == .label && i.label == l) = some k ∧
      (mergeLiterals is).findIdx? (fun i => i.op == .label && i.label == l) = some k' ∧
      is.drop k = m :: rest ∧ (mergeLiterals is).drop k' = m :: mergeLiterals rest
  | [], h => by simp [Program.marked] at h
  | i :: rest, h => by
    by_cases hi : (i.op == .label && i.label == l) = true
    · have hop : i.op = .label := by simp_all
      rcases mergeLiterals_cons i rest with hmerge | ⟨j, more, -, htext, -⟩
      · exact ⟨0, 0, i, rest, by simp [List.findIdx?_cons, hi], by simp [hmerge, List.findIdx?_cons, hi], rfl, by simp [hmerge]⟩
      · rw [hop] at htext
        cases htext
    · have hrest : l ∈ Program.marked rest := by
        rw [Program.marked_cons] at h
        split at h
        · rename_i hop
          rcases List.mem_cons.mp h with rfl | h
          · simp [hop] at hi
          · exact h
        · exact h
      obtain ⟨k, k', m, tail, hk, hk', hdrop, hdrop'⟩ := exists_mark_mergeLiterals l rest hrest
      rcases mergeLiterals_cons i rest with hmerge | ⟨j, more, hjoin, htext, hj, hmerge⟩
      · exact ⟨k + 1, k' + 1, m, tail, by simp [List.findIdx?_cons, hi, hk], by simp [hmerge, List.findIdx?_cons, hi, hk'],
          hdrop, by simpa [hmerge] using hdrop'⟩
      · rw [hjoin] at hk' hdrop'
        refine ⟨k + 1, k', m, tail, by simp [List.findIdx?_cons, hi, hk], ?_, hdrop, ?_⟩
        · rw [hmerge, ← hk']
          simp [List.findIdx?_cons, htext, hj]
        · rw [hmerge]
          cases k' with
          | zero => simp [List.findIdx?_cons, hj] at hk'
          | succ k' => exact hdrop'

theorem drop_eq_cons_iff {α : Type} {xs : List α} {k : Nat} {x : α} {rest : List α} :
    xs.drop k = x :: rest ↔ xs[k]? = some x ∧ xs.drop (k + 1) = rest := by
  constructor
  · intro h
    refine ⟨?_, ?_⟩
    · rw [← Nat.add_zero k, ← List.getElem?_drop, h]
      rfl
    · rw [← List.tail_drop, h]
      rfl
  · rintro ⟨hx, rfl⟩
    obtain ⟨hk, rfl⟩ := List.getElem?_eq_some_iff.mp hx
    exact List.drop_eq_getElem_cons hk

/-! ### Joined runs -/

/-- A program and the one with its literals joined, when every jump has a place to go to. -/
structure Joins (p q : Program) : Prop where
  instrs : q.instrs = mergeLiterals p.instrs
  jumps : ∀ i ∈ p.instrs, i.op.jumps = true → i.label ∈ Program.marked p.instrs

/-- A frame of the joined program follows a frame of the other: it stands at the same place, or it is
about to write literals of which the other has written some. -/
inductive Follows (p q : Program) (f : Frame) : Frame → Prop
  | aligned {pc : Nat} (h : q.instrs.drop pc = mergeLiterals (p.instrs.drop f.pc)) : Follows p q f { f with pc }
  | behind {pc : Nat} {m : State} {written : Bytes} {x j : Instr} {more : List Instr} (hx : x.op = .text)
      (hj : j.op = .text) (hp : mergeLiterals (p.instrs.drop f.pc) = j :: more) (hq : q.instrs.drop pc = x :: more)
      (htext : x.text = written ++ j.text) (hstate : f.state = m.write written) : Follows p q f { f with pc, state := m }

section
variable {host : Host} {p q : Program} {f f' g f₁ : Frame}

theorem Joins.target_drop (hjoin : Joins p q) {l : Int} (hl : l ∈ Program.marked p.instrs) :
    q.instrs.drop (q.target l + 1) = mergeLiterals (p.instrs.drop (p.target l + 1)) := by
  obtain ⟨k, k', m, rest, hk, hk', hdrop, hdrop'⟩ := exists_mark_mergeLiterals l p.instrs hl
  rw [← hjoin.instrs] at hk' hdrop'
  rw [Program.target, Program.target, hk, hk', (drop_eq_cons_iff.mp hdrop).2, (drop_eq_cons_iff.mp hdrop').2]

theorem State.write_write (m : State) (a b : Bytes) : (m.write a).write b = m.write (a ++ b) := by
  simp [State.write, Scope.write]

theorem goes_text (host : Host) {i : Instr} (hi : p.instrs[f.pc]? = some i) (hop : i.op = .text) :
    Goes host p f { f with pc := f.pc + 1, state := f.state.write i.text } :=
  .single hi fun run => by simp only [step, hop]

/-- At a literal the joined program stands at a literal as well, which it writes at once or keeps until the
literals after this one are written. -/
theorem Follows.literal {i : Instr} (h : Follows p q f f₁) (hi : p.instrs[f.pc]? = some i) (hop : i.op = .text) :
    ∃ x, q.instrs[f₁.pc]? = some x ∧ x.op = .text ∧
      (Follows p q { f with pc := f.pc + 1, state := f.state.write i.text } f₁ ∨
        Follows p q { f with pc := f.pc + 1, state := f.state.write i.text }
          { f₁ with pc := f₁.pc + 1, state := f₁.state.write x.text }) := by
  have hdrop := drop_eq_cons_iff.mpr ⟨hi, rfl⟩
  cases h with
  | aligned h =>
    rw [hdrop] at h
    rcases mergeLiterals_cons i (p.instrs.drop (f.pc + 1)) with hmerge | ⟨j, more, hrest, -, hj, hmerge⟩
    · obtain ⟨hqi, hq⟩ := drop_eq_cons_iff.mp (h.trans hmerge)
      exact ⟨i, hqi, hop, Or.inr (.aligned hq)⟩
    · have hq := h.trans hmerge
      exact ⟨_, (drop_eq_cons_iff.mp hq).1, hop, Or.inl (.behind (x := { i with text := i.text ++ j.text }) hop hj hrest hq rfl rfl)⟩
  | @behind pc m written x j more hx hj hp hq htext hstate =>
    rw [hdrop] at hp
    obtain ⟨hqx, hq'⟩ := drop_eq_cons_iff.mp hq
    refine ⟨x, hqx, hx, ?_⟩
    rcases mergeLiterals_cons i (p.instrs.drop (f.pc + 1)) with hmerge | ⟨j', more', hrest, -, hj', hmerge⟩
    · cases hp.symm.trans hmerge
      rw [htext, ← State.write_write, ← hstate]
      exact Or.inr (.aligned hq')
    · cases hp.symm.trans hmerge
      have hjoined : x.text = (written ++ i.text) ++ j'.text := by rw [htext, List.append_assoc]
      have hwritten : f.state.write i.text = m.write (written ++ i.text) := by rw [hstate, State.write_write]
      exact Or.inl (.behind hx hj' hrest hq hjoined hwritten)

/-- An instruction that is no literal is the same in the joined program. -/
theorem Follows.place {i : Instr} (h : Follows p q f f₁) (hi : p.instrs[f.pc]? = some i) (hop : i.op ≠ .text) :
    ∃ pc, f₁ = { f with pc } ∧ q.instrs[pc]? = some i ∧ q.instrs.drop (pc + 1) = mergeLiterals (p.instrs.drop (f.pc + 1)) := by
  have hdrop := drop_eq_cons_iff.mpr ⟨hi, rfl⟩
  have hmerge : mergeLiterals (p.instrs.drop f.pc) = i :: mergeLiterals (p.instrs.drop (f.pc + 1)) := by
    rw [hdrop]
    rcases mergeLiterals_cons i (p.instrs.drop (f.pc + 1)) with h | ⟨_, _, _, htext, _⟩
    · exact h
    · exact absurd htext hop
  cases h with
  | aligned h =>
    rw [hmerge] at h
    exact ⟨_, rfl, drop_eq_cons_iff.mp h⟩
  | behind hx hj hp _ _ _ =>
    rw [hmerge] at hp
    cases hp
    exact absurd hj hop

theorem Follows.goes (hjoin : Joins p q) (h : Follows p q f f₁) (hfg : Goes host p f g) :
    ∃ g₁, Goes host q f₁ g₁ ∧ Follows p q g g₁ := by
  induction hfg generalizing f₁ with
  | refl => exact ⟨f₁, .refl, h⟩
  | @step f f' g i hi hs _ ih =>
    by_cases hop : i.op = .text
    · have hf' : f' = { f with pc := f.pc + 1, state := f.state.write i.text } := by
        have := hs fun _ m => (.ok (), m)
        simp only [Render.step, hop] at this
        cases this
        rfl
      obtain ⟨x, hx, hxop, hfollows | hfollows⟩ := h.literal hi hop
      · exact ih (hf' ▸ hfollows)
      · obtain ⟨g₁, hg₁, hfollows₁⟩ := ih (hf' ▸ hfollows)
        exact ⟨g₁, (goes_text host hx hxop).trans hg₁, hfollows₁⟩
    · obtain ⟨pc, rfl, hqi, hrest⟩ := h.place hi hop
      rcases step_moved hs pc with ⟨hpc, hstep⟩ | ⟨hjumps, hpc, hstep⟩
      · have hfollows : Follows p q f' { f' with pc := pc + 1 } := .aligned (by rw [hrest, hpc])
        obtain ⟨g₂, hg₂, hfollows₂⟩ := ih hfollows
        exact ⟨g₂, .step hqi hstep hg₂, hfollows₂⟩
      · have hmarked := hjoin.jumps i (List.mem_of_getElem? hi) hjumps
        have hfollows : Follows p q f' { f' with pc := q.target i.label + 1 } :=
          .aligned (by rw [hpc, hjoin.target_drop hmarked])
        obtain ⟨g₂, hg₂, hfollows₂⟩ := ih hfollows
        exact ⟨g₂, .step hqi hstep hg₂, hfollows₂⟩

theorem Follows.stops {e : Failure} (h : Follows p q f f₁) (hstop : Stops host p f e) : Stops host q f₁ e := by
  obtain ⟨i, f', hi, hs⟩ := hstop
  have hop : i.op ≠ .text := by
    intro hop
    have := hs fun _ m => (.ok (), m)
    simp [step, hop] at this
  obtain ⟨pc, rfl, hqi, -⟩ := h.place hi hop
  exact ⟨i, _, hqi, stop_moved hs pc⟩

theorem Follows.finish (h : Follows p q f f₁) (hend : p.instrs[f.pc]? = none) :
    q.instrs[f₁.pc]? = none ∧ f₁.state = f.state ∧ f₁.opened = f.opened := by
  have hdrop : p.instrs.drop f.pc = [] := List.drop_eq_nil_iff.mpr (List.getElem?_eq_none_iff.mp hend)
  cases h with
  | aligned h =>
    rw [hdrop] at h
    exact ⟨List.getElem?_eq_none_iff.mpr (List.drop_eq_nil_iff.mp h), rfl, rfl⟩
  | behind hx hj hp _ _ _ =>
    rw [hdrop] at hp
    cases hp

end

end Stencil.Render
