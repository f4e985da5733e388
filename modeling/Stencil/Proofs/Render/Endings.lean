import Stencil.Proofs.Render.Placements
import Stencil.Proofs.Render.Runs

/-! # Whole runs

`Ends` says what a run comes to without a bound on its steps: it is built from finitely many steps of the
program and of the templates that these render. With enough steps the machine comes to just that
(`exec_of_ends`). Runs keep the depth of the render, and templates are rendered inside one another at most
as deeply as is allowed (`Enters.depth_le`). -/

namespace Stencil.Render

/-! ### Templates inside -/

/-- The program of a template and the state that it is rendered in, if it can be loaded. -/
def opened? (host : Host) (name : Bytes) (vars : Bindings) (m : State) : Option (Program × State) :=
  match openTemplate host name vars m with
  | (.ok q, inner) => some (q, inner)
  | (.error _, _) => none

/-- The program that an instruction runs inside its step, with the state that it is run in. -/
def nested? (host : Host) (i : Instr) (m : State) : Option (Program × State) :=
  match i.op, i.mode with
  | .render, _ => (templateVars host i m).toOption.bind fun vars => opened? host i.name vars m
  | .exitScope, .component => (componentVars host i m).toOption.bind fun vars => opened? host i.name vars m.leave
  | _, _ => none

section
variable {host : Host} {run run' : Program → State → Outcome} {m : State} {i : Instr}

theorem renderTemplate_congr {name : Bytes} {vars : Bindings}
    (h : ∀ q inner, opened? host name vars m = some (q, inner) → run q inner = run' q inner) :
    renderTemplate host run name vars m = renderTemplate host run' name vars m := by
  unfold renderTemplate
  unfold opened? at h
  rcases hopen : openTemplate host name vars m with ⟨e | q, inner⟩
  · rfl
  · rw [hopen] at h
    simp only [h q inner rfl]

theorem closeScope_congr (hop : i.op = .exitScope)
    (h : ∀ q inner, nested? host i m = some (q, inner) → run q inner = run' q inner) :
    closeScope host run i m = closeScope host run' i m := by
  unfold closeScope
  unfold nested? at h
  cases hmode : i.mode with
  | component =>
    simp only [hop, hmode] at h ⊢
    cases hvars : componentVars host i m with
    | error e => rfl
    | ok vars =>
      rw [hvars] at h
      exact renderTemplate_congr h
  | merge | discard | push | define | slot | unknown code => rfl

/-- A step depends only on what comes of the program that it runs inside. -/
theorem step_congr {f : Frame} (h : ∀ q inner, nested? host i f.state = some (q, inner) → run q inner = run' q inner)
    (p : Program) : step host run p i f = step host run' p i f := by
  cases hop : i.op with
  | exitScope => simp only [step, hop, closeScope_congr hop h]
  | render =>
    simp only [step, hop]
    unfold nested? at h
    simp only [hop] at h
    cases hvars : templateVars host i f.state with
    | error e => rfl
    | ok vars =>
      rw [hvars] at h
      simp only [renderTemplate_congr h]
  | text | emit | comment | label | jump | jumpIfNot | set | bind | enterScope | range | next | placeholder | resolve
  | unknown code => simp only [step, hop]

end

/-! ### Endings -/

/-- The outcome of a whole run. -/
inductive Ends (host : Host) : Program → Frame → Outcome → Prop
  | finish {p : Program} {f : Frame} (hend : p.instrs[f.pc]? = none) : Ends host p f (f.finish p)
  | stop {p : Program} {f g : Frame} {i : Instr} {e : Failure} {inside : Outcome} (hi : p.instrs[f.pc]? = some i)
      (hinside : ∀ q m, nested? host i f.state = some (q, m) → Ends host q { state := m } inside)
      (hs : step host (fun _ _ => inside) p i f = .stop e g) : Ends host p f (.error e, g.abandon)
  | next {p : Program} {f g : Frame} {i : Instr} {inside o : Outcome} (hi : p.instrs[f.pc]? = some i)
      (hinside : ∀ q m, nested? host i f.state = some (q, m) → Ends host q { state := m } inside)
      (hs : step host (fun _ _ => inside) p i f = .next g) (rest : Ends host p g o) : Ends host p f o

theorem exec_of_ends {host : Host} {p : Program} {f : Frame} {o : Outcome} (h : Ends host p f o) :
    ∃ n, ∀ fuel, n ≤ fuel → exec host fuel p f = o := by
  -- enough steps for the program inside a step
  have henough {i : Instr} {m : State} {inside : Outcome}
      (ih : ∀ q inner, nested? host i m = some (q, inner) →
        ∃ n, ∀ fuel, n ≤ fuel → exec host fuel q { state := inner } = inside) :
      ∃ n, ∀ fuel, n ≤ fuel → ∀ q inner, nested? host i m = some (q, inner) →
        exec host fuel q { state := inner } = inside := by
    cases hnested : nested? host i m with
    | none => exact ⟨0, nofun⟩
    | some found =>
      obtain ⟨n, hn⟩ := ih found.1 found.2 hnested
      refine ⟨n, fun fuel hfuel q inner heq => ?_⟩
      cases heq
      exact hn fuel hfuel
  induction h with
  | finish hend =>
    refine ⟨1, fun fuel hfuel => ?_⟩
    obtain ⟨r, rfl⟩ := Nat.exists_eq_add_of_le' hfuel
    rw [exec, hend]
  | @stop p f g i e inside hi _ hs ih =>
    obtain ⟨n, hn⟩ := henough ih
    refine ⟨n + 1, fun fuel hfuel => ?_⟩
    obtain ⟨r, rfl⟩ : ∃ r, fuel = r + 1 := ⟨fuel - 1, by omega⟩
    have hstep : step host (fun q m => exec host r q { state := m }) p i f = step host (fun _ _ => inside) p i f :=
      step_congr (hn r (by omega)) p
    rw [exec, hi]
    simp only [hstep, hs]
  | @next p f g i inside o hi _ hs _ ih ihrest =>
    obtain ⟨n, hn⟩ := henough ih
    obtain ⟨k, hk⟩ := ihrest
    refine ⟨n + k + 1, fun fuel hfuel => ?_⟩
    obtain ⟨r, rfl⟩ : ∃ r, fuel = r + 1 := ⟨fuel - 1, by omega⟩
    have hstep : step host (fun q m => exec host r q { state := m }) p i f = step host (fun _ _ => inside) p i f :=
      step_congr (hn r (by omega)) p
    rw [exec, hi]
    simp only [hstep, hs]
    exact hk r (by omega)

/-- A run comes to one end only. -/
theorem Ends.unique {host : Host} {p : Program} {f : Frame} {o o' : Outcome} (h : Ends host p f o)
    (h' : Ends host p f o') : o = o' := by
  obtain ⟨n, hn⟩ := exec_of_ends h
  obtain ⟨n', hn'⟩ := exec_of_ends h'
  rw [← hn (n + n') (Nat.le_add_right _ _), hn' (n + n') (Nat.le_add_left _ _)]

/-! ### The depth of a render -/

section
variable {host : Host} {run : Program → State → Outcome}

@[simp] theorem shared_leave (m : State) : m.leave.shared = m.shared := by
  unfold State.leave
  split <;> rfl

@[simp] theorem shared_leaveAll (m : State) (n : Nat) : (m.leaveAll n).shared = m.shared := by
  induction n generalizing m with
  | zero => rfl
  | succ n ih => rw [State.leaveAll, ih, shared_leave]

@[simp] theorem shared_resolve (m : State) : m.resolve.shared = m.shared := by
  unfold State.resolve
  split <;> rfl

@[simp] theorem shared_setSlot (m : State) (name content : Bytes) : (m.setSlot name content).shared = m.shared := by
  unfold State.setSlot
  split <;> rfl

@[simp] theorem shared_bind (l : Loop) (e : Value.Entry) (m : State) : (l.bind e m).shared = m.shared := by
  unfold Loop.bind State.atLevel
  split
  · rfl
  · dsimp only
    split <;> rfl

@[simp] theorem depth_placeholder (m : State) (kind name fallback : Bytes) :
    (m.placeholder kind name fallback).shared.depth = m.shared.depth := by
  unfold State.placeholder
  dsimp only
  split <;> rfl

/-- A template that is opened is one level deeper, and not too deep. -/
theorem depth_openTemplate {name : Bytes} {vars : Bindings} {m inner : State} {r : Except Failure Program}
    (h : openTemplate host name vars m = (r, inner)) :
    match r with
    | .error _ => inner.shared.depth = m.shared.depth
    | .ok _ => inner.shared.depth = m.shared.depth + 1 ∧ (inner.shared.depth : Int) ≤ host.maxDepth := by
  unfold openTemplate at h
  split at h
  · cases h
    rfl
  · split at h
    · cases h
      rfl
    · rename_i hdepth
      split at h
      · cases h
        rfl
      · dsimp only at h
        split at h
        · cases h
          rfl
        · cases h
          have hle : ((m.shared.depth + 1 : Nat) : Int) ≤ host.maxDepth := by omega
          exact ⟨rfl, hle⟩

variable (hrun : ∀ q m, (run q m).2.shared.depth = m.shared.depth)
include hrun

theorem depth_renderTemplate (host : Host) (name : Bytes) (vars : Bindings) (m : State) :
    (renderTemplate host run name vars m).2.shared.depth = m.shared.depth := by
  unfold renderTemplate
  rcases hopen : openTemplate host name vars m with ⟨e | q, inner⟩ <;> have hdepth := depth_openTemplate hopen
  · exact hdepth
  · have hback : (run q inner).2.leave.rise.shared.depth = m.shared.depth := by
      simp [State.rise, hrun, hdepth.1]
    dsimp only
    split
    · exact hback
    · exact hback

theorem depth_closeScope (host : Host) (i : Instr) (m : State) :
    (closeScope host run i m).2.shared.depth = m.shared.depth := by
  unfold closeScope
  cases i.mode with
  | component =>
    dsimp only
    split
    · simp
    · simp [depth_renderTemplate hrun]
  | merge | discard | push | define | slot | unknown code =>
    simp [State.write, Shared.push, Shared.define]

/-- The state that a step leads to or stops in. -/
def Step.state : Step → State
  | .next f => f.state
  | .stop _ f => f.state

theorem depth_step (host : Host) (p : Program) (i : Instr) (f : Frame) :
    (step host run p i f).state.shared.depth = f.state.shared.depth := by
  cases hop : i.op with
  | text | comment | label | jump | resolve | placeholder | enterScope | unknown code =>
    simp [step, hop, Step.state, State.write, State.enter]
  | emit | set | bind | jumpIfNot =>
    simp only [step, hop]
    split
    · rfl
    · first | rfl | (split <;> rfl)
  | range =>
    simp only [step, hop]
    split
    · rfl
    · split
      · rfl
      · unfold startLoop
        split
        · rfl
        · simp [Step.state]
  | next =>
    simp only [step, hop]
    split
    · rfl
    · split
      · rfl
      · unfold advanceLoop
        split
        · rfl
        · simp [Step.state]
  | exitScope =>
    simp only [step, hop]
    split
    · rfl
    · have hclose := depth_closeScope hrun host i f.state
      rcases h : closeScope host run i f.state with ⟨e | u, m⟩ <;> rw [h] at hclose <;> exact hclose
  | render =>
    simp only [step, hop]
    split
    · rfl
    · rename_i vars _
      have hrender := depth_renderTemplate hrun host i.name vars f.state
      rcases h : renderTemplate host run i.name vars f.state with ⟨e | u, m⟩ <;> rw [h] at hrender <;> exact hrender

end

/-- The depth of the render is the same after a run as before, however the run ends. -/
theorem depth_exec (host : Host) : ∀ (fuel : Nat) (p : Program) (f : Frame),
    (exec host fuel p f).2.shared.depth = f.state.shared.depth
  | 0, _, _ => by simp [exec, Frame.abandon]
  | fuel + 1, p, f => by
    rw [exec]
    split
    · unfold Frame.finish Frame.abandon
      split <;> simp
    · rename_i i _
      have hstep := depth_step (fun q m => depth_exec host fuel q { state := m }) host p i f
      split
      · rename_i e g hs
        rw [hs] at hstep
        simpa [Frame.abandon, Step.state] using hstep
      · rename_i g hs
        rw [hs] at hstep
        rw [depth_exec host fuel p g]
        exact hstep

/-- A run comes to a step that renders a template, `k` templates inside one another with this one. The steps that
are left are counted as in the run. -/
inductive Enters (host : Host) : (fuel : Nat) → Program → Frame → (k : Nat) → Program → State → Prop
  | first {fuel n : Nat} {p q : Program} {f g : Frame} {i : Instr} {m : State} (hv : Visits host p fuel f (n + 1) g)
      (hi : p.instrs[g.pc]? = some i) (hnested : nested? host i g.state = some (q, m)) : Enters host fuel p f 1 q m
  | inside {fuel n k : Nat} {p q q' : Program} {f g : Frame} {i : Instr} {m m' : State}
      (hv : Visits host p fuel f (n + 1) g) (hi : p.instrs[g.pc]? = some i)
      (hnested : nested? host i g.state = some (q, m)) (rest : Enters host n q { state := m } k q' m') :
      Enters host fuel p f (k + 1) q' m'

section
variable {host : Host}

theorem depth_nested {i : Instr} {m inner : State} {q : Program} (h : nested? host i m = some (q, inner)) :
    inner.shared.depth = m.shared.depth + 1 ∧ (inner.shared.depth : Int) ≤ host.maxDepth := by
  have hopened {name : Bytes} {vars : Bindings} {m : State} (h : opened? host name vars m = some (q, inner)) :
      inner.shared.depth = m.shared.depth + 1 ∧ (inner.shared.depth : Int) ≤ host.maxDepth := by
    unfold opened? at h
    split at h
    · rename_i hopen
      cases h
      exact depth_openTemplate hopen
    · cases h
  unfold nested? at h
  split at h
  · obtain ⟨vars, -, h⟩ := Option.bind_eq_some_iff.mp h
    exact hopened h
  · obtain ⟨vars, -, h⟩ := Option.bind_eq_some_iff.mp h
    rw [← shared_leave m]
    exact hopened h
  · cases h

theorem Visits.depth {p : Program} {fuel n : Nat} {f g : Frame} (h : Visits host p fuel f n g) :
    g.state.shared.depth = f.state.shared.depth := by
  induction h with
  | here => rfl
  | @step fuel n f f' g i hi hs _ ih =>
    have hstep := depth_step (fun q m => depth_exec host fuel q { state := m }) host p i f
    rw [hs] at hstep
    exact ih.trans hstep

/-- Templates are not rendered more deeply inside one another than is allowed. -/
theorem Enters.depth_le {fuel k : Nat} {p q : Program} {f : Frame} {m : State} (h : Enters host fuel p f k q m) :
    m.shared.depth = f.state.shared.depth + k ∧ (m.shared.depth : Int) ≤ host.maxDepth := by
  induction h with
  | first hv hi hnested =>
    obtain ⟨hdepth, hle⟩ := depth_nested hnested
    exact ⟨by rw [hdepth, hv.depth], hle⟩
  | inside hv hi hnested _ ih =>
    obtain ⟨hdepth, -⟩ := depth_nested hnested
    refine ⟨?_, ih.2⟩
    rw [ih.1, hdepth, hv.depth]
    omega

end

end Stencil.Render
