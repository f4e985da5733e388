import Stencil.Render.Machine

/-! # Renders in lockstep

Two renders of one program whose activities load the same, and are cancelled together, do the same in every
step and differ in their activities only (`alike_exec`). -/

namespace Stencil.Render

/-- Related activities are cancelled together and load the same, and stay related. -/
structure LoadsAlike (host : Host) (R : Session → Session → Prop) : Prop where
  canceled : ∀ s s', R s s' → s'.canceled = s.canceled
  load : ∀ s s', R s s' → ∀ compile ∈ host.compile, ∀ path,
    (s'.load compile path).1 = (s.load compile path).1 ∧ R (s.load compile path).2 (s'.load compile path).2

/-! ### States -/

/-- The same state in another activity. -/
def State.withSession (m : State) (s : Session) : State := { m with shared := { m.shared with session := s } }

/-- States that differ in their activities only. -/
structure Alike (R : Session → Session → Prop) (m m' : State) : Prop where
  session : R m.shared.session m'.shared.session
  same : m' = m.withSession m'.shared.session

section
variable {R : Session → Session → Prop} {host : Host} {m m' : State}

/-- A change that has nothing to do with the activity. -/
theorem Alike.map (h : Alike R m m') {g : State → State}
    (hg : ∀ (m : State) (s : Session), g (m.withSession s) = (g m).withSession s) : Alike R (g m) (g m') := by
  have hsession (m : State) : (g m).shared.session = m.shared.session :=
    congrArg (·.shared.session) (hg m m.shared.session)
  refine ⟨?_, ?_⟩
  · rw [hsession, hsession]
    exact h.session
  · rw [hsession, ← hg, ← h.same]

theorem Alike.leave (h : Alike R m m') : Alike R m.leave m'.leave := by
  refine h.map fun m s => ?_
  obtain ⟨top, _ | ⟨next, rest⟩, shared⟩ := m <;> rfl

theorem Alike.leaveAll (h : Alike R m m') (n : Nat) : Alike R (m.leaveAll n) (m'.leaveAll n) := by
  induction n generalizing m m' with
  | zero => exact h
  | succ n ih => exact ih h.leave

theorem Alike.setSlot (h : Alike R m m') (name content : Bytes) :
    Alike R (m.setSlot name content) (m'.setSlot name content) := by
  refine h.map (g := (·.setSlot name content)) fun m s => ?_
  have hscopes : (m.withSession s).scopes = m.scopes := rfl
  unfold State.setSlot
  rw [hscopes]
  split <;> rfl

theorem Alike.bind (h : Alike R m m') (l : Loop) (e : Value.Entry) : Alike R (l.bind e m) (l.bind e m') := by
  unfold Loop.bind
  split
  · exact h
  · rename_i level _
    refine h.map (g := (·.atLevel level _)) fun m s => ?_
    have houter : (m.withSession s).outer = m.outer := rfl
    unfold State.atLevel
    rw [houter]
    dsimp only
    split <;> rfl

theorem Alike.placeholder (h : Alike R m m') (kind name fallback : Bytes) :
    Alike R (m.placeholder kind name fallback) (m'.placeholder kind name fallback) := by
  refine h.map (g := (·.placeholder kind name fallback)) fun m s => ?_
  unfold State.placeholder
  dsimp only
  split <;> rfl

theorem fillOnce_session (sh : Shared) (session : Session) (text : Bytes) (open? : Option Bytes) :
    { sh with session }.fillOnce open? text = sh.fillOnce open? text := by
  induction text generalizing open? with
  | nil => cases open? <;> rfl
  | cons c cs ih =>
    cases open? with
    | none => simp only [Shared.fillOnce, ih]
    | some token =>
      simp only [Shared.fillOnce, ih]
      rfl

theorem fill_session (sh : Shared) (session : Session) (passes : Nat) (text : Bytes) :
    { sh with session }.fill passes text = sh.fill passes text := by
  induction passes generalizing text with
  | zero => rfl
  | succ passes ih => simp only [Shared.fill, ih, fillOnce_session]

theorem Alike.resolve (h : Alike R m m') : Alike R m.resolve m'.resolve := by
  refine h.map fun m s => ?_
  have hroot : (m.withSession s).isRoot = m.isRoot := rfl
  have hfill := fill_session m.shared s maxPasses m.top.out
  unfold State.resolve
  rw [hroot]
  split
  · simp only [State.withSession, hfill]
  · rfl

theorem Alike.outer (h : Alike R m m') : m'.outer = m.outer := h.same ▸ rfl

theorem Alike.top (h : Alike R m m') : m'.top = m.top := h.same ▸ rfl

variable (hR : LoadsAlike host R)
include hR

theorem Alike.eval (h : Alike R m m') (expr : Bytes) : m'.eval host expr = m.eval host expr := by
  have hcanceled := hR.canceled _ _ h.session
  have hlookup : m'.lookup = m.lookup := by rw [h.same]; rfl
  unfold State.eval
  rw [hcanceled, hlookup]

theorem Alike.evalBindings (h : Alike R m m') (expr : Bytes) :
    m'.evalBindings host expr = m.evalBindings host expr := by
  unfold State.evalBindings
  rw [h.eval hR]

theorem Alike.templateVars (h : Alike R m m') (i : Instr) : templateVars host i m' = templateVars host i m := by
  unfold Render.templateVars
  rw [h.evalBindings hR]

theorem Alike.componentVars (h : Alike R m m') (i : Instr) : componentVars host i m' = componentVars host i m := by
  unfold Render.componentVars
  rw [h.templateVars hR, h.top]

/-! ### Templates -/

/-- Outcomes with the same result, in states that are alike. -/
structure OutcomesAlike {α : Type} (R : Session → Session → Prop) (o o' : Except Failure α × State) : Prop where
  result : o'.1 = o.1
  state : Alike R o.2 o'.2

theorem alike_openTemplate (h : Alike R m m') (name : Bytes) (vars : Bindings) :
    OutcomesAlike R (openTemplate host name vars m) (openTemplate host name vars m') := by
  obtain ⟨s, hs, rfl⟩ : ∃ s, R m.shared.session s ∧ m' = m.withSession s := ⟨_, h.session, h.same⟩
  have hcanceled := hR.canceled _ _ hs
  unfold openTemplate
  cases hcompile : host.compile with
  | none => exact ⟨rfl, h⟩
  | some compile =>
    obtain ⟨hresult, hload⟩ := hR.load _ _ hs compile hcompile name
    simp only [State.withSession, hcanceled, hresult]
    split
    · exact ⟨rfl, h⟩
    · split
      · exact ⟨rfl, h⟩
      · split
        · exact ⟨rfl, hload, rfl⟩
        · exact ⟨rfl, hload, rfl⟩

variable {run : Program → State → Outcome}
  (hrun : ∀ q m m', Alike R m m' → OutcomesAlike R (run q m) (run q m'))
include hrun

theorem alike_renderTemplate (h : Alike R m m') (name : Bytes) (vars : Bindings) :
    OutcomesAlike R (renderTemplate host run name vars m) (renderTemplate host run name vars m') := by
  obtain ⟨hresult, hopened⟩ := alike_openTemplate hR h name vars
  unfold renderTemplate
  rcases hopen : openTemplate host name vars m with ⟨e | p, inner⟩ <;>
    rcases hopen' : openTemplate host name vars m' with ⟨e' | p', inner'⟩ <;>
    rw [hopen, hopen'] at hresult hopened <;> cases hresult
  · exact ⟨rfl, hopened⟩
  · obtain ⟨hresult, hafter⟩ := hrun p inner inner' hopened
    have hback : Alike R (run p inner).2.leave.rise (run p inner').2.leave.rise :=
      hafter.leave.map (g := State.rise) fun _ _ => rfl
    dsimp only
    rw [hresult, hafter.top]
    split
    · exact ⟨rfl, hback⟩
    · exact ⟨rfl, hback.map (g := (·.write _)) fun _ _ => rfl⟩

theorem alike_closeScope (h : Alike R m m') (i : Instr) :
    OutcomesAlike R (closeScope host run i m) (closeScope host run i m') := by
  have hleave := h.leave
  unfold closeScope
  rw [h.top]
  cases i.mode with
  | merge => exact ⟨rfl, hleave.map (g := (·.write _)) fun _ _ => rfl⟩
  | discard | unknown code => exact ⟨rfl, hleave⟩
  | push => exact ⟨rfl, hleave.map (g := fun m => { m with shared := m.shared.push _ _ }) fun _ _ => rfl⟩
  | define => exact ⟨rfl, hleave.map (g := fun m => { m with shared := m.shared.define _ _ }) fun _ _ => rfl⟩
  | slot => exact ⟨rfl, hleave.setSlot _ _⟩
  | component =>
    dsimp only
    rw [h.componentVars hR]
    split
    · exact ⟨rfl, hleave⟩
    · exact alike_renderTemplate hR hrun hleave _ _

end

/-! ### Runs -/

/-- Frames at the same place, in states that are alike. -/
structure FramesAlike (R : Session → Session → Prop) (f f' : Frame) : Prop where
  state : Alike R f.state f'.state
  same : f' = { f with state := f'.state }

/-- Steps that come to the same. -/
def StepsAlike (R : Session → Session → Prop) : Step → Step → Prop
  | .next f, .next f' => FramesAlike R f f'
  | .stop e f, .stop e' f' => e' = e ∧ FramesAlike R f f'
  | _, _ => False

section
variable {R : Session → Session → Prop} {host : Host} (hR : LoadsAlike host R) {run : Program → State → Outcome}
  (hrun : ∀ q m m', Alike R m m' → OutcomesAlike R (run q m) (run q m'))
include hR hrun

theorem alike_step {f f' : Frame} (h : FramesAlike R f f') (p : Program) (i : Instr) :
    StepsAlike R (step host run p i f) (step host run p i f') := by
  obtain ⟨pc, opened, loops, m⟩ := f
  obtain ⟨m', hstate, rfl⟩ : ∃ m', Alike R m m' ∧ f' = ⟨pc, opened, loops, m'⟩ := ⟨_, h.state, h.same⟩
  cases hop : i.op with
  | text =>
    simp only [step, hop]
    exact ⟨hstate.map (g := (·.write i.text)) fun _ _ => rfl, rfl⟩
  | comment | label =>
    simp only [step, hop]
    exact ⟨hstate, rfl⟩
  | placeholder =>
    simp only [step, hop]
    exact ⟨hstate.placeholder _ _ _, rfl⟩
  | resolve =>
    simp only [step, hop]
    exact ⟨hstate.resolve, rfl⟩
  | unknown code =>
    simp only [step, hop]
    exact ⟨rfl, hstate, rfl⟩
  | enterScope =>
    simp only [step, hop]
    exact ⟨hstate.map (g := (·.enter _)) fun _ _ => rfl, rfl⟩
  | jump =>
    simp only [step, hop]
    exact ⟨hstate, rfl⟩
  | emit =>
    simp only [step, hop, hstate.eval hR]
    split
    · exact ⟨rfl, hstate, rfl⟩
    · refine ⟨?_, rfl⟩
      dsimp only
      split
      · exact hstate.map (g := (·.writeEscaped _)) fun _ _ => rfl
      · exact hstate.map (g := (·.write _)) fun _ _ => rfl
  | set =>
    simp only [step, hop, hstate.eval hR]
    split
    · exact ⟨rfl, hstate, rfl⟩
    · exact ⟨hstate.map (g := (·.set _ _)) fun _ _ => rfl, rfl⟩
  | bind =>
    simp only [step, hop, hstate.evalBindings hR]
    split
    · exact ⟨rfl, hstate, rfl⟩
    · exact ⟨hstate.map (g := (·.setAll _)) fun _ _ => rfl, rfl⟩
  | jumpIfNot =>
    simp only [step, hop, hstate.eval hR]
    split
    · exact ⟨rfl, hstate, rfl⟩
    · split
      · exact ⟨hstate, rfl⟩
      · exact ⟨hstate, rfl⟩
  | range =>
    simp only [step, hop, hstate.eval hR]
    split
    · exact ⟨rfl, hstate, rfl⟩
    · split
      · exact ⟨rfl, hstate, rfl⟩
      · rename_i entries _
        cases entries with
        | nil => exact ⟨hstate, rfl⟩
        | cons e rest =>
          simp only [startLoop, hstate.outer]
          exact ⟨hstate.bind { level := some m.outer.length, .. } e, rfl⟩
  | next =>
    simp only [step, hop, hR.canceled _ _ hstate.session]
    cases loops with
    | nil => exact ⟨rfl, hstate, rfl⟩
    | cons l others =>
      dsimp only
      split
      · exact ⟨rfl, hstate, rfl⟩
      · unfold advanceLoop
        split
        · exact ⟨hstate, rfl⟩
        · exact ⟨hstate.bind _ _, rfl⟩
  | exitScope =>
    simp only [step, hop, hstate.outer]
    cases opened with
    | zero => exact ⟨rfl, hstate, rfl⟩
    | succ opened =>
      dsimp only
      obtain ⟨hresult, hclosed⟩ := alike_closeScope hR hrun hstate i
      rcases hclose : closeScope host run i m with ⟨e | u, after⟩ <;>
        rcases hclose' : closeScope host run i m' with ⟨e' | u', after'⟩ <;>
        rw [hclose, hclose'] at hresult hclosed <;> cases hresult
      · exact ⟨rfl, hclosed, rfl⟩
      · exact ⟨hclosed, rfl⟩
  | render =>
    simp only [step, hop, hstate.templateVars hR]
    split
    · exact ⟨rfl, hstate, rfl⟩
    · rename_i vars _
      obtain ⟨hresult, hrendered⟩ := alike_renderTemplate hR hrun hstate i.name vars
      rcases hrender : renderTemplate host run i.name vars m with ⟨e | u, after⟩ <;>
        rcases hrender' : renderTemplate host run i.name vars m' with ⟨e' | u', after'⟩ <;>
        rw [hrender, hrender'] at hresult hrendered <;> cases hresult
      · exact ⟨rfl, hrendered, rfl⟩
      · exact ⟨hrendered, rfl⟩

end

/-- Runs from frames that are alike come to the same result, in states that are alike. -/
theorem alike_exec {R : Session → Session → Prop} {host : Host} (hR : LoadsAlike host R) :
    ∀ (fuel : Nat) (p : Program) {f f' : Frame}, FramesAlike R f f' →
      OutcomesAlike R (exec host fuel p f) (exec host fuel p f')
  | 0, _, f, f', h => by
    have hopened : f'.opened = f.opened := h.same ▸ rfl
    simp only [exec, Frame.abandon, hopened]
    exact ⟨rfl, h.state.leaveAll _⟩
  | fuel + 1, p, f, f', h => by
    have hopened : f'.opened = f.opened := h.same ▸ rfl
    have hpc : f'.pc = f.pc := h.same ▸ rfl
    rw [exec, exec, hpc]
    cases p.instrs[f.pc]? with
    | none =>
      simp only [Frame.finish, Frame.abandon, hopened]
      split
      · exact ⟨rfl, h.state.resolve⟩
      · exact ⟨rfl, h.state.leaveAll _⟩
    | some i =>
      have hrun (q : Program) (m m' : State) (hm : Alike R m m') :
          OutcomesAlike R (exec host fuel q { state := m }) (exec host fuel q { state := m' }) :=
        alike_exec hR fuel q ⟨hm, rfl⟩
      have hstep := alike_step hR hrun h p i
      dsimp only
      rcases hs : step host (fun q m => exec host fuel q { state := m }) p i f with g | ⟨e, g⟩ <;>
        rcases hs' : step host (fun q m => exec host fuel q { state := m }) p i f' with g' | ⟨e', g'⟩ <;>
        rw [hs, hs'] at hstep
      · exact alike_exec hR fuel p hstep
      · exact hstep.elim
      · exact hstep.elim
      · obtain ⟨rfl, hstate, hsame⟩ := hstep
        have hopened : g'.opened = g.opened := hsame ▸ rfl
        simp only [Frame.abandon, hopened]
        exact ⟨rfl, hstate.leaveAll _⟩

end Stencil.Render
