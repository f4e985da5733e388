import Stencil.Proofs.Program.Joining
import Stencil.Proofs.Render.Endings

/-! # What statements do

`performAll` says what statements do to a state, by recursion on the statements; there are no places and no
jumps. A run of their code comes to the same (`reached_performAll`), when the templates that are rendered
inside come to what `run` says. -/

namespace Stencil.Render

open Statement (code codeAll WellFormed AllWellFormed codeAll_cons codeAll_nil rangeInstr nextInstr)
open Program (marked)

/-! ### Meaning -/

/-- What statements come to. -/
inductive Flow where
  | done (m : State)
  /-- The region around is left. -/
  | left (m : State)
  | failed (i : Instr) (e : Failure)
  | canceled

/-- Goes on once something is done. -/
def Flow.andThen : Flow → (State → Flow) → Flow
  | .done m, next => next m
  | .left m, _ => .left m
  | .failed i e, _ => .failed i e
  | .canceled, _ => .canceled

/-- What an instruction comes to. -/
def Flow.of (i : Instr) : Except Failure State → Flow
  | .ok m => .done m
  | .error e => .failed i e

/-- The state after a success. -/
def Outcome.settled : Outcome → Except Failure State
  | (.ok _, m) => .ok m
  | (.error e, _) => .error e

section
variable (host : Host) (run : Program → State → Outcome)

/-- What a straight instruction does. -/
def act (i : Instr) (m : State) : Except Failure State :=
  match i.op with
  | .text => .ok (m.write i.text)
  | .emit => (m.eval host i.expr).map fun v => if i.escape then m.writeEscaped v.rendered else m.write v.rendered
  | .set => (m.eval host i.expr).map (m.set i.name)
  | .bind => (m.evalBindings host i.expr).map m.setAll
  | .render => (templateVars host i m).bind fun vars => (renderTemplate host run i.name vars m).settled
  | .placeholder => .ok (m.placeholder i.key i.name i.text)
  | .resolve => .ok m.resolve
  | _ => .ok m

/-- The turns of a loop from the entry `e` on. -/
def turns (body : State → Flow) (l : Loop) (e : Value.Entry) : (rest : List Value.Entry) → State → Flow
  | [], m => (body (l.bind e m)).andThen fun m => if m.shared.session.canceled then .canceled else .done m
  | e' :: rest, m => (body (l.bind e m)).andThen fun m =>
      if m.shared.session.canceled then .canceled else turns body { l with rest, index := l.index + 1 } e' rest m

mutual

/-- What a statement does. -/
def perform : Statement → State → Flow
  | .plain i, m => .of i (act host run i m)
  | .scope opening body closing, m =>
    (performAll body (m.enter { isComponent := opening.mode = .component })).andThen fun m =>
      .of closing (closeScope host run closing m).settled
  | .region _ body, m =>
    match performAll body m with
    | .left m => .done m
    | flow => flow
  | .branch test next leave body, m =>
    match m.eval host test with
    | .error e => .failed (.jumpIfNot test next) e
    | .ok v =>
      if v.truthy then (performAll body m).andThen fun m => if leave.isSome then .left m else .done m else .done m
  | .loop items item key _ empty _ body otherwise, m =>
    match m.eval host items with
    | .error e => .failed (rangeInstr items item key empty) e
    | .ok v =>
      match v.entries? with
      | none => .failed (rangeInstr items item key empty) (loopFailure v)
      | some [] => performAll otherwise m
      | some (e :: rest) =>
        turns (performAll body)
          { rest, index := 0, length := rest.length + 1, level := some m.outer.length, item, key } e rest m

/-- What statements do in order. -/
def performAll : List Statement → State → Flow
  | [], m => .done m
  | s :: ss, m => (perform s m).andThen (performAll ss)

end

end

theorem map_eq_ok {α β : Type} {x : Except Failure α} {f : α → β} {b : β} (h : x.map f = .ok b) :
    ∃ a, x = .ok a ∧ f a = b := by
  cases x with
  | error e => cases h
  | ok a => exact ⟨a, rfl, Except.ok.inj h⟩

theorem bind_eq_ok {α β : Type} {x : Except Failure α} {f : α → Except Failure β} {b : β} (h : x.bind f = .ok b) :
    ∃ a, x = .ok a ∧ f a = .ok b := by
  cases x with
  | error e => cases h
  | ok a => exact ⟨a, rfl, h⟩

theorem exists_ok_of_any {ε α : Type} {r : Except ε α} {q : α → Bool} (h : r.toOption.any q = true) :
    ∃ a, r = .ok a ∧ q a = true := by
  cases r with
  | error => cases h
  | ok a => exact ⟨a, rfl, h⟩

/-! ### What stays -/

/-- As many scopes are open, as many templates are rendered inside one another, and only programs of a kind can be
loaded. -/
structure Stays (P : Program → Prop) (host : Host) (m m' : State) : Prop where
  outer : m'.outer.length = m.outer.length
  depth : m'.shared.depth = m.shared.depth
  runs : Runs P host m → Runs P host m'

/-- Only programs of a kind can be loaded, and so many templates are rendered inside one another. -/
structure Within (P : Program → Prop) (host : Host) (depth : Nat) (m : State) : Prop where
  runs : Runs P host m
  depth : m.shared.depth = depth

/-- Runs of programs of a kind, one level deeper, come to what `run` says, if that is not too deep. -/
structure Answers (P : Program → Prop) (host : Host) (depth : Nat) (run : Program → State → Outcome) : Prop where
  ends : ∀ q m, P q → Within P host (depth + 1) m → depth < host.maxDepth → Ends host q { state := m } (run q m)
  stays : ∀ q m m', P q → Within P host (depth + 1) m → depth < host.maxDepth → run q m = (.ok (), m') →
    Stays P host m m'

section
variable {P : Program → Prop} {host : Host} {depth : Nat} {m m₁ m' : State}

theorem Stays.refl (m : State) : Stays P host m m := ⟨rfl, rfl, id⟩

theorem Stays.trans (h : Stays P host m m₁) (h' : Stays P host m₁ m') : Stays P host m m' :=
  ⟨h'.outer.trans h.outer, h'.depth.trans h.depth, fun hm => h'.runs (h.runs hm)⟩

theorem Stays.of_session (houter : m'.outer.length = m.outer.length) (hdepth : m'.shared.depth = m.shared.depth)
    (hsession : m'.shared.session = m.shared.session) : Stays P host m m' :=
  ⟨houter, hdepth, fun hm => ⟨hm.compiles, fun p hp => hm.keeps p ((keeps_congr hsession).mp hp)⟩⟩

theorem Within.stays (hm : Within P host depth m) (h : Stays P host m m') : Within P host depth m' :=
  ⟨h.runs hm.runs, h.depth.trans hm.depth⟩

theorem Within.congr (hm : Within P host depth m) (h : m'.shared = m.shared) : Within P host depth m' :=
  ⟨⟨hm.runs.compiles, fun p hp => hm.runs.keeps p ((keeps_congr (h ▸ rfl)).mp hp)⟩, h ▸ hm.depth⟩

/-- A template that is opened is of the kind, one level deeper. -/
theorem Within.opened {name : Bytes} {vars : Bindings} {q : Program} (hm : Within P host depth m)
    (h : opened? host name vars m = some (q, m')) :
    P q ∧ Within P host (depth + 1) m' ∧ depth < host.maxDepth ∧ m'.outer.length = m.outer.length + 1 := by
  unfold opened? at h
  split at h
  · rename_i hopen
    cases h
    obtain ⟨hdepth, hle⟩ := depth_openTemplate hopen
    obtain ⟨session, hopens⟩ := openTemplate_ok hopen
    obtain ⟨hq, hruns⟩ := hopens.runs hm.runs
    obtain ⟨rfl, -, -⟩ := hopens
    rw [hm.depth] at hdepth
    exact ⟨hq, ⟨hruns, hdepth⟩, by omega, rfl⟩
  · cases h

theorem Within.nested {i : Instr} {q : Program} (hm : Within P host depth m) (h : nested? host i m = some (q, m')) :
    P q ∧ Within P host (depth + 1) m' ∧ depth < host.maxDepth := by
  unfold nested? at h
  split at h
  · obtain ⟨vars, -, h⟩ := Option.bind_eq_some_iff.mp h
    obtain ⟨hq, hinner, hlt, -⟩ := hm.opened h
    exact ⟨hq, hinner, hlt⟩
  · obtain ⟨vars, -, h⟩ := Option.bind_eq_some_iff.mp h
    obtain ⟨hq, hinner, hlt, -⟩ := (hm.congr (shared_leave m)).opened h
    exact ⟨hq, hinner, hlt⟩
  · cases h

theorem length_outer_leave (m : State) : m.leave.outer.length = m.outer.length - 1 := by
  obtain ⟨top, _ | ⟨s, rest⟩, shared⟩ := m <;> rfl

variable {run : Program → State → Outcome} (hrun : Answers P host depth run)
include hrun

theorem stays_renderTemplate {name : Bytes} {vars : Bindings} (hm : Within P host depth m)
    (h : (renderTemplate host run name vars m).settled = .ok m') : Stays P host m m' := by
  unfold renderTemplate at h
  rcases hopen : openTemplate host name vars m with ⟨e | q, inner⟩
  · rw [hopen] at h
    cases h
  · obtain ⟨hq, hinner, hlt, houter⟩ := hm.opened (q := q) (by rw [opened?, hopen])
    simp only [hopen] at h
    rcases hafter : run q inner with ⟨e | u, after⟩ <;> rw [hafter] at h <;> cases h
    have hstays := hrun.stays q inner after hq hinner hlt hafter
    refine ⟨?_, ?_, fun hm => ?_⟩
    · change after.leave.outer.length = m.outer.length
      rw [length_outer_leave, hstays.outer, houter, Nat.add_sub_cancel]
    · change after.leave.shared.depth - 1 = m.shared.depth
      rw [shared_leave, hstays.depth, hinner.depth, hm.depth, Nat.add_sub_cancel]
    · have hruns := hstays.runs hinner.runs
      exact ⟨hruns.compiles, fun p hp => hruns.keeps p ((keeps_congr (session_leave after)).mp hp)⟩

theorem stays_act {i : Instr} (hm : Within P host depth m) (h : act host run i m = .ok m') : Stays P host m m' := by
  unfold act at h
  split at h
  · cases h
    exact .of_session rfl rfl rfl
  · obtain ⟨v, -, rfl⟩ := map_eq_ok h
    split
    · exact .of_session rfl rfl rfl
    · exact .of_session rfl rfl rfl
  · obtain ⟨v, -, rfl⟩ := map_eq_ok h
    exact .of_session rfl rfl rfl
  · obtain ⟨bindings, -, rfl⟩ := map_eq_ok h
    exact .of_session rfl rfl rfl
  · obtain ⟨vars, -, h⟩ := bind_eq_ok h
    exact stays_renderTemplate hrun hm h
  · cases h
    exact .of_session (by simp) (by simp) (by simp)
  · cases h
    exact .of_session (by simp) (by simp) (by simp)
  · cases h
    exact .refl m

theorem stays_closeScope {i : Instr} (hm : Within P host depth m) (h : (closeScope host run i m).settled = .ok m') :
    Stays P host m.leave m' := by
  unfold closeScope at h
  cases hmode : i.mode with
  | merge | discard | push | define =>
    simp only [hmode, Outcome.settled, Except.ok.injEq] at h
    subst h
    exact .of_session rfl rfl rfl
  | slot =>
    simp only [hmode, Outcome.settled, Except.ok.injEq] at h
    subst h
    exact .of_session (quiet_setSlot m.leave i.name m.top.out : Quiet host _ _).depth (by simp) (by simp)
  | component =>
    simp only [hmode] at h
    split at h
    · cases h
    · exact stays_renderTemplate hrun (hm.congr (shared_leave m)) h
  | unknown code =>
    simp only [hmode, Outcome.settled] at h
    cases h

end

/-- What was done stays so, and only a region around can be left. -/
def Flow.Stays (P : Program → Prop) (host : Host) (stop? : Option Int) (m : State) : Flow → Prop
  | .done m' => Render.Stays P host m m'
  | .left m' => stop?.isSome = true ∧ Render.Stays P host m m'
  | .failed _ _ | .canceled => True

section
variable {P : Program → Prop} {host : Host} {depth : Nat} {m m₁ m' : State} {stop? : Option Int} {flow : Flow}

/-- The flow from an earlier state. -/
theorem Flow.Stays.before (hm : Render.Stays P host m m₁) (h : flow.Stays P host stop? m₁) : flow.Stays P host stop? m := by
  cases flow with
  | done m' => exact hm.trans h
  | left m' => exact ⟨h.1, hm.trans h.2⟩
  | failed | canceled => trivial

theorem Flow.Stays.andThen {next : State → Flow} (hm : Within P host depth m) (h : flow.Stays P host stop? m)
    (hnext : ∀ m₁, Within P host depth m₁ → (next m₁).Stays P host stop? m₁) :
    (flow.andThen next).Stays P host stop? m := by
  cases flow with
  | done m₁ => exact (hnext m₁ (hm.stays h)).before h
  | left m₁ => exact h
  | failed | canceled => trivial

theorem Flow.Stays.widen (h : flow.Stays P host none m) : flow.Stays P host stop? m := by
  cases flow with
  | left m₁ => cases h.1
  | done | failed | canceled => exact h

theorem stays_bind (l : Loop) (e : Value.Entry) (m : State) : Stays P host m (l.bind e m) :=
  .of_session (quiet_bind l e m : Quiet host _ _).depth (by simp) (by simp)

theorem stays_turns {body : State → Flow} (hbody : ∀ m, Within P host depth m → (body m).Stays P host none m) (l : Loop)
    (e : Value.Entry) (rest : List Value.Entry) (hm : Within P host depth m) :
    (turns body l e rest m).Stays P host none m := by
  have hturn (l : Loop) (e : Value.Entry) {m : State} (hm : Within P host depth m) {next : State → Flow}
      (hnext : ∀ m₁, Within P host depth m₁ → (next m₁).Stays P host none m₁) :
      ((body (l.bind e m)).andThen fun m => if m.shared.session.canceled then .canceled else next m).Stays P host none m := by
    have hbound := hm.stays (stays_bind l e m)
    refine ((hbody _ hbound).andThen hbound fun m₁ hm₁ => ?_).before (stays_bind l e m)
    split
    · trivial
    · exact hnext m₁ hm₁
  induction rest generalizing l e m with
  | nil => exact hturn l e hm fun m₁ _ => Stays.refl m₁
  | cons e' rest ih => exact hturn l e hm fun m₁ hm₁ => ih _ _ hm₁

/-- Behind a scope as many are open as before it. -/
theorem Stays.leave {s : Scope} (h : Stays P host (m.enter s) m₁) (hm₁ : Within P host depth m₁) :
    Stays P host m m₁.leave := by
  refine ⟨?_, ?_, fun _ => (hm₁.congr (shared_leave m₁)).runs⟩
  · rw [length_outer_leave, h.outer]
    rfl
  · rw [shared_leave, h.depth]
    rfl

variable {run : Program → State → Outcome}

/-- Whatever was done in a scope, and however it is closed. -/
theorem stays_scoped (hrun : Answers P host depth run) {s : Scope} (closing : Instr) (hm : Within P host depth m)
    (h : flow.Stays P host none (m.enter s)) :
    (flow.andThen fun m₁ => .of closing (closeScope host run closing m₁).settled).Stays P host stop? m := by
  have hinner : Within P host depth (m.enter s) := hm.congr rfl
  cases flow with
  | done m₁ =>
    rw [Flow.andThen]
    cases hclose : (closeScope host run closing m₁).settled with
    | error e => trivial
    | ok m₂ =>
      have hm₁ : Within P host depth m₁ := hinner.stays h
      exact (Stays.leave h hm₁).trans (stays_closeScope hrun hm₁ hclose)
  | left m₁ => cases h.1
  | failed | canceled => trivial

mutual

theorem stays_perform (hrun : Answers P host depth run) : ∀ (s : Statement) (m : State) (stop? : Option Int),
    WellFormed stop? s → Within P host depth m → (perform host run s m).Stays P host stop? m
  | .plain i, m, _, _, hm => by
    rw [perform]
    cases hact : act host run i m with
    | error e => trivial
    | ok m' => exact stays_act hrun hm hact
  | .scope opening body closing, m, _, h, hm => by
    obtain ⟨-, -, -, hwell⟩ := h
    rw [perform]
    exact stays_scoped hrun closing hm (stays_performAll hrun body _ none hwell (hm.congr rfl))
  | .region stop body, m, _, h, hm => by
    simp only [WellFormed] at h
    have hbody := stays_performAll hrun body m (some stop) h hm
    rw [perform]
    cases hflow : performAll host run body m <;> rw [hflow] at hbody
    · exact hbody
    · exact hbody.2
    · trivial
    · trivial
  | .branch test next leave body, m, _, h, hm => by
    rw [perform]
    split
    · trivial
    · split
      · refine (stays_performAll hrun body m none h.2 hm).widen.andThen hm fun m₁ _ => ?_
        split
        · rename_i hsome
          refine ⟨?_, Stays.refl m₁⟩
          rcases h.1 with hleave | hleave
          · simp [hleave] at hsome
          · exact hleave ▸ hsome
        · exact Stays.refl m₁
      · exact Stays.refl m
  | .loop items item key again empty stop body otherwise, m, _, h, hm => by
    rw [perform]
    split
    · trivial
    · split
      · trivial
      · exact (stays_performAll hrun otherwise m none h.2 hm).widen
      · exact (stays_turns (fun m => stays_performAll hrun body m none h.1) _ _ _ hm).widen

theorem stays_performAll (hrun : Answers P host depth run) : ∀ (ss : List Statement) (m : State) (stop? : Option Int),
    AllWellFormed stop? ss → Within P host depth m → (performAll host run ss m).Stays P host stop? m
  | [], m, _, _, _ => Stays.refl m
  | s :: ss, m, _, h, hm =>
    (stays_perform hrun s m _ h.1 hm).andThen hm fun m₁ hm₁ => stays_performAll hrun ss m₁ _ h.2 hm₁

end

end

/-! ### Joined literals -/

section
variable {host : Host} {run : Program → State → Outcome}

@[simp] theorem Flow.andThen_done (flow : Flow) : flow.andThen .done = flow := by cases flow <;> rfl

theorem Flow.andThen_assoc (flow : Flow) (f g : State → Flow) :
    (flow.andThen f).andThen g = flow.andThen fun m => (f m).andThen g := by
  cases flow <;> rfl

theorem performAll_append (a b : List Statement) (m : State) :
    performAll host run (a ++ b) m = (performAll host run a m).andThen (performAll host run b) := by
  induction a generalizing m with
  | nil => rfl
  | cons s a ih =>
    rw [List.cons_append, performAll, performAll, Flow.andThen_assoc]
    exact congrArg _ (funext ih)

theorem performAll_singleton (s : Statement) (m : State) : performAll host run [s] m = perform host run s m :=
  Flow.andThen_done _

theorem perform_literal {i : Instr} (hi : i.op = .text) (m : State) :
    perform host run (.plain i) m = .done (m.write i.text) := by
  simp [perform, act, hi, Flow.of]

section Literals
variable {i : Instr} (hi : i.op = .text)
include hi

mutual

theorem performAll_afterLiteral : ∀ (s : Statement) (m : State),
    performAll host run (Statement.afterLiteral i s) m = perform host run s (m.write i.text)
  | .plain j, m => by
    rw [Statement.afterLiteral]
    split
    · rename_i hj
      simp [performAll, perform, act, hi, hj, Flow.of, Flow.andThen, State.write, Scope.write]
    · rw [performAll, perform_literal hi, Flow.andThen, performAll]
      exact Flow.andThen_done _
  | .region stop body, m => by
    simp only [Statement.afterLiteral, performAll, perform, performAll_pushLiteral body]
    exact Flow.andThen_done _
  | .scope _ _ _, m | .branch _ _ _ _, m | .loop _ _ _ _ _ _ _ _, m => by
    simp only [Statement.afterLiteral]
    rw [performAll, perform_literal hi, Flow.andThen, performAll]
    exact Flow.andThen_done _

/-- A literal in front is written first, wherever it was put. -/
theorem performAll_pushLiteral : ∀ (ss : List Statement) (m : State),
    performAll host run (Statement.pushLiteral i ss) m = performAll host run ss (m.write i.text)
  | [], m => by
    simp only [Statement.pushLiteral, performAll, perform_literal hi]
    rfl
  | s :: ss, m => by
    rw [Statement.pushLiteral, performAll_append, performAll_afterLiteral s]
    rfl

end

end Literals

theorem performAll_inFront (s : Statement) (ss : List Statement) (m : State) :
    performAll host run (Statement.inFront s ss) m = (perform host run s m).andThen (performAll host run ss) := by
  cases s with
  | plain i =>
    rw [Statement.inFront]
    split
    · rename_i hi
      rw [performAll_pushLiteral hi, perform_literal hi]
      rfl
    · rfl
  | scope | region | branch | loop => rfl

mutual

theorem perform_joined : ∀ (s : Statement) (m : State), perform host run s.joined m = perform host run s m
  | .plain _, _ => rfl
  | .scope _ body _, m => by simp only [Statement.joined, perform, performAll_joinedAll body]
  | .region _ body, m => by simp only [Statement.joined, perform, performAll_joinedAll body]
  | .branch _ _ _ body, m => by simp only [Statement.joined, perform, performAll_joinedAll body]
  | .loop _ _ _ _ _ _ body otherwise, m => by
    have hbody : performAll host run (Statement.joinedAll body) = performAll host run body :=
      funext (performAll_joinedAll body)
    simp only [Statement.joined, perform, hbody, performAll_joinedAll otherwise]

/-- Statements do the same with their literals joined. -/
theorem performAll_joinedAll : ∀ (ss : List Statement) (m : State),
    performAll host run (Statement.joinedAll ss) m = performAll host run ss m
  | [], _ => rfl
  | s :: ss, m => by
    rw [Statement.joinedAll, performAll_inFront, perform_joined s, performAll]
    exact congrArg _ (funext (performAll_joinedAll ss))

end

end

end Stencil.Render
