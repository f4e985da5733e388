import Stencil.Proofs.Maps
import Stencil.Proofs.Render.Safety

/-! # Traces of renders

`events` is the trace of a run: what was written, which placeholders were placed, and which scopes were
opened and closed, in the order of execution, with the traces of rendered templates in their places.
`Acts` says what each event does to the state. A run that ends well goes from its first state to its last
one by the events of its trace (`acts_exec`), so what holds of a whole render follows by induction on a
list of events, without programs, loops or nested runs. -/

namespace Stencil.Render

/-- What happens in a render. -/
inductive Event where
  /-- Text was written, as it stands in the output. -/
  | wrote (text : Bytes)
  | placed (kind name fallback : Bytes)
  /-- A scope was opened, also that of a rendered template. -/
  | opened
  /-- The innermost scope was closed, and its output disposed of. -/
  | closed (mode : ScopeMode) (name : Bytes)
  /-- The placeholders in the output of the root were filled in. -/
  | filled
  deriving DecidableEq, Repr

/-! ### The trace of a run -/

section
variable (host : Host) (trace : Program → State → List Event)

/-- The events of rendering the template `name`; `trace` gives those of its program. -/
def templateEvents (name : Bytes) (vars : Bindings) (m : State) : List Event :=
  match openTemplate host name vars m with
  | (.error _, _) => []
  | (.ok p, inner) => .opened :: (trace p inner ++ [.closed .merge []])

/-- Placeholders are filled in at the root only. -/
def fillEvents (m : State) : List Event := if m.isRoot then [.filled] else []

/-- The events of one step. -/
def stepEvents (i : Instr) (m : State) : List Event :=
  match i.op with
  | .text => [.wrote i.text]
  | .emit =>
    match m.eval host i.expr with
    | .error _ => []
    | .ok v => [.wrote (if i.escape then Text.escapeHtml v.rendered else v.rendered)]
  | .enterScope => [.opened]
  | .exitScope =>
    .closed i.mode i.name ::
      match i.mode, componentVars host i m with
      | .component, .ok vars => templateEvents host trace i.name vars m.leave
      | _, _ => []
  | .render =>
    match templateVars host i m with
    | .error _ => []
    | .ok vars => templateEvents host trace i.name vars m
  | .placeholder => [.placed i.key i.name i.text]
  | .resolve => fillEvents m
  | .comment | .label | .jump | .jumpIfNot | .set | .bind | .range | .next | .unknown _ => []

end

/-- The events of a run from where a frame stands. -/
def events (host : Host) : (fuel : Nat) → Program → Frame → List Event
  | 0, _, _ => []
  | fuel + 1, p, f =>
    match p.instrs[f.pc]? with
    | none => fillEvents f.state
    | some i =>
      stepEvents host (fun q m => events host fuel q { state := m }) i f.state ++
        match step host (fun q m => exec host fuel q { state := m }) p i f with
        | .stop _ _ => []
        | .next f => events host fuel p f

/-! ### Programs that are loaded -/

/-- The program is kept for some path. -/
def State.Keeps (m : State) (p : Program) : Prop := ∃ path, (path, p) ∈ m.shared.session.loader.programs

/-- The program comes of compiling some template. -/
def Host.Compiles (host : Host) (p : Program) : Prop :=
  ∃ compile path canceled, host.compile = some compile ∧ (compile path canceled).program = .ok p

/-- A program that is loaded was kept before or is compiled, and so are the programs that are kept afterwards. -/
theorem load_programs (s : Session) (compile : CompileStep) (path : Bytes) :
    (∀ p, (s.load compile path).1 = .ok p →
      (path, p) ∈ s.loader.programs ∨ (compile path s.canceled).program = .ok p) ∧
    ∀ e ∈ (s.load compile path).2.loader.programs,
      e ∈ s.loader.programs ∨ (compile path s.canceled).program = .ok e.2 := by
  unfold Session.load
  split
  · rename_i p hp
    refine ⟨fun q hq => .inl ?_, fun e he => .inl he⟩
    cases hq
    unfold Loader.kept? at hp
    split at hp
    · exact Assoc.mem_of_get? hp
    · cases hp
  · dsimp only
    split
    · exact ⟨nofun, fun e he => .inl he⟩
    · rename_i p hp
      refine ⟨fun q hq => .inr (Except.ok.inj hq ▸ hp), fun e he => ?_⟩
      unfold Loader.store at he
      split at he
      · rcases Assoc.mem_insert_cases he with he | rfl
        · exact .inl he
        · exact .inr hp
      · exact .inl he

/-! ### What events do -/

/-- Output and what was deferred are the same; programs may have been loaded. -/
structure Quiet (host : Host) (m m' : State) : Prop where
  outs : m'.scopes.map Scope.out = m.scopes.map Scope.out
  pushed : m'.shared.pushed = m.shared.pushed
  sections : m'.shared.sections = m.shared.sections
  fallbacks : m'.shared.fallbacks = m.shared.fallbacks
  loaded : ∀ p, m'.Keeps p → m.Keeps p ∨ host.Compiles p

theorem Quiet.refl {host : Host} (m : State) : Quiet host m m := ⟨rfl, rfl, rfl, rfl, fun _ => .inl⟩

/-- Disposes of the output of the innermost scope. The output of slots and of the bodies of components
goes to variables, and no further. -/
def State.close (m : State) (mode : ScopeMode) (name : Bytes) : State :=
  match mode with
  | .merge => m.leave.write m.top.out
  | .push => { m.leave with shared := m.leave.shared.push name m.top.out }
  | .define => { m.leave with shared := m.leave.shared.define name m.top.out }
  | .discard | .slot | .component | .unknown _ => m.leave

/-- The events lead from one state to the other. -/
inductive Acts (host : Host) : State → List Event → State → Prop
  | refl {m : State} : Acts host m [] m
  | quiet {m m₁ m' : State} {es : List Event} (h : Quiet host m m₁) (rest : Acts host m₁ es m') : Acts host m es m'
  | wrote {m m' : State} {es : List Event} (text : Bytes) (rest : Acts host (m.write text) es m') :
      Acts host m (.wrote text :: es) m'
  | placed {m m' : State} {es : List Event} (kind name fallback : Bytes)
      (rest : Acts host (m.placeholder kind name fallback) es m') : Acts host m (.placed kind name fallback :: es) m'
  | opened {m m' : State} {es : List Event} (s : Scope) (hs : s.out = []) (rest : Acts host (m.enter s) es m') :
      Acts host m (.opened :: es) m'
  | closed {m m' : State} {es : List Event} (mode : ScopeMode) (name : Bytes) (houter : m.outer ≠ [])
      (rest : Acts host (m.close mode name) es m') : Acts host m (.closed mode name :: es) m'
  | filled {m m' : State} {es : List Event} (hroot : m.isRoot = true) (rest : Acts host m.resolve es m') :
      Acts host m (.filled :: es) m'

section
variable {host : Host}

theorem Acts.trans {m m₁ m' : State} {es es' : List Event} (h : Acts host m es m₁) (h' : Acts host m₁ es' m') :
    Acts host m (es ++ es') m' := by
  induction h with
  | refl => exact h'
  | quiet hq _ ih => exact .quiet hq (ih h')
  | wrote text _ ih => exact .wrote text (ih h')
  | placed kind name fallback _ ih => exact .placed kind name fallback (ih h')
  | opened s hs _ ih => exact .opened s hs (ih h')
  | closed mode name houter _ ih => exact .closed mode name houter (ih h')
  | filled hroot _ ih => exact .filled hroot (ih h')

theorem acts_fill (m : State) : Acts host m (fillEvents m) m.resolve := by
  unfold fillEvents State.resolve
  split
  · rename_i hroot
    refine .filled hroot ?_
    rw [State.resolve, if_pos hroot]
    exact .refl
  · exact .refl

theorem length_outer_of_isRoot {m : State} (h : m.isRoot = true) : m.outer.length = 0 := by
  simpa [State.isRoot] using h

theorem isRoot_of_mem_fillEvents {m : State} (h : .filled ∈ fillEvents m) : m.isRoot = true := by
  unfold fillEvents at h
  split at h
  · assumption
  · cases h

theorem Acts.of_quiet {m m' : State} (h : Quiet host m m') : Acts host m [] m' := .quiet h .refl

/-! ### Quiet changes -/

theorem Quiet.depth {m m' : State} (h : Quiet host m m') : m'.outer.length = m.outer.length := by
  simpa [State.scopes] using congrArg List.length h.outs

theorem quiet_set (m : State) (name : Bytes) (v : Value) : Quiet host m (m.set name v) :=
  ⟨rfl, rfl, rfl, rfl, fun _ => .inl⟩

theorem quiet_setAll (m : State) (bindings : Bindings) : Quiet host m (m.setAll bindings) :=
  ⟨rfl, rfl, rfl, rfl, fun _ => .inl⟩

theorem quiet_session (m : State) {session : Session}
    (h : ∀ p, ({ m with shared := { m.shared with session } } : State).Keeps p → m.Keeps p ∨ host.Compiles p) :
    Quiet host m { m with shared := { m.shared with session } } :=
  ⟨rfl, rfl, rfl, rfl, h⟩

theorem quiet_deepen (m : State) : Quiet host m m.deepen :=
  ⟨rfl, rfl, rfl, rfl, fun _ => .inl⟩

theorem quiet_rise (m : State) : Quiet host m m.rise :=
  ⟨rfl, rfl, rfl, rfl, fun _ => .inl⟩

theorem length_leave {m : State} (h : m.outer ≠ []) : m.leave.outer.length + 1 = m.outer.length := by
  obtain ⟨top, outer, shared⟩ := m
  cases outer with
  | nil => exact absurd rfl h
  | cons s rest => rfl

@[simp] theorem outer_placeholder (m : State) (kind name fallback : Bytes) :
    (m.placeholder kind name fallback).outer = m.outer := by
  unfold State.placeholder
  dsimp only
  split <;> rfl

@[simp] theorem outer_resolve (m : State) : m.resolve.outer = m.outer := by
  unfold State.resolve
  split <;> rfl

@[simp] theorem outer_close (m : State) (mode : ScopeMode) (name : Bytes) :
    (m.close mode name).outer = m.leave.outer := by
  cases mode <;> rfl

theorem quiet_atLevel (m : State) (level : Nat) {f : Scope → Scope} (hf : ∀ s, (f s).out = s.out) :
    Quiet host m (m.atLevel level f) := by
  unfold State.atLevel
  dsimp only
  split
  · exact ⟨by simp [State.scopes, hf], rfl, rfl, rfl, fun _ => .inl⟩
  · refine ⟨?_, rfl, rfl, rfl, fun _ => .inl⟩
    simp only [State.scopes, List.map_cons, List.cons.injEq, true_and]
    refine List.ext_getElem? fun k => ?_
    simp only [List.getElem?_map, List.getElem?_modify]
    cases m.outer[k]? with
    | none => rfl
    | some s => split <;> simp [hf]

theorem quiet_bind (l : Loop) (e : Value.Entry) (m : State) : Quiet host m (l.bind e m) := by
  unfold Loop.bind
  split
  · exact .refl m
  · exact quiet_atLevel m _ fun _ => rfl

theorem outs_captureSlot {name content : Bytes} : ∀ {scopes scopes' : List Scope},
    Scope.captureSlot name content scopes = some scopes' → scopes'.map Scope.out = scopes.map Scope.out
  | [], _, h => by cases h
  | s :: rest, _, h => by
    rw [Scope.captureSlot] at h
    split at h
    · cases h
      rfl
    · obtain ⟨rest', hrest, rfl⟩ := Option.map_eq_some_iff.mp h
      simp [outs_captureSlot hrest]

theorem quiet_setSlot (m : State) (name content : Bytes) : Quiet host m (m.setSlot name content) := by
  unfold State.setSlot
  split
  · rename_i s rest h
    exact ⟨outs_captureSlot h, rfl, rfl, rfl, fun _ => .inl⟩
  · exact ⟨rfl, rfl, rfl, rfl, fun _ => .inl⟩

end

/-! ### Steps and runs -/

/-- Runs of whole programs go by their traces, end at the depth they started at, and fill nothing in unless
they start at the root. -/
structure Traced (host : Host) (run : Program → State → Outcome) (trace : Program → State → List Event) : Prop where
  acts : ∀ q m m', run q m = (.ok (), m') → Acts host m (trace q m) m'
  depth : ∀ q m m', run q m = (.ok (), m') → m'.outer.length = m.outer.length
  nested : ∀ q m m', run q m = (.ok (), m') → m.outer ≠ [] → .filled ∉ trace q m

section
variable {host : Host} {run : Program → State → Outcome} {trace : Program → State → List Event}

/-- The template that is opened can be loaded, and has a scope of its own. -/
structure Opens (host : Host) (vars : Bindings) (m : State) (q : Program) (inner : State) (session : Session) : Prop where
  inner : inner = (({ m with shared := { m.shared with session } } : State).enter { vars }).deepen
  program : m.Keeps q ∨ host.Compiles q
  loaded : ∀ p, ({ m with shared := { m.shared with session } } : State).Keeps p → m.Keeps p ∨ host.Compiles p

theorem openTemplate_ok {name : Bytes} {vars : Bindings} {m inner : State} {q : Program}
    (h : openTemplate host name vars m = (.ok q, inner)) : ∃ session, Opens host vars m q inner session := by
  unfold openTemplate at h
  split at h
  · cases h
  · rename_i compile hcompile
    obtain ⟨hprogram, hloaded⟩ := load_programs m.shared.session compile name
    have hcompiled {p : Program} (hp : (compile name m.shared.session.canceled).program = .ok p) : host.Compiles p :=
      ⟨compile, name, _, hcompile, hp⟩
    split at h
    · cases h
    · split at h
      · cases h
      · dsimp only at h
        split at h
        · cases h
        · rename_i p hp
          cases h
          refine ⟨_, rfl, ?_, ?_⟩
          · exact (hprogram _ hp).imp (fun h => ⟨name, h⟩) hcompiled
          · rintro p ⟨path, hpath⟩
            exact (hloaded _ hpath).imp (fun h => ⟨path, h⟩) hcompiled

theorem acts_template (htraced : Traced host run trace) {name : Bytes} {vars : Bindings} {m m' : State}
    (h : renderTemplate host run name vars m = (.ok (), m')) :
    Acts host m (templateEvents host trace name vars m) m' ∧ m'.outer.length = m.outer.length ∧
      .filled ∉ templateEvents host trace name vars m := by
  unfold renderTemplate at h
  unfold templateEvents
  rcases hopen : openTemplate host name vars m with ⟨e | q, inner⟩
  · simp [hopen] at h
  · simp only [hopen] at h ⊢
    rcases hrun : run q inner with ⟨e | u, after⟩
    · simp [hrun] at h
    · obtain ⟨session, rfl, -, hloaded⟩ := openTemplate_ok hopen
      simp only [hrun, Prod.mk.injEq, true_and] at h
      have houter : after.outer.length = m.outer.length + 1 := htraced.depth q _ after hrun
      have hne : after.outer ≠ [] := List.ne_nil_of_length_eq_add_one houter
      have hleave : after.leave.outer.length = m.outer.length := Nat.succ.inj ((length_leave hne).trans houter)
      refine ⟨?_, h ▸ hleave, ?_⟩
      · refine .quiet (quiet_session m hloaded) (.opened { vars } rfl (.quiet (quiet_deepen _) ?_))
        refine (htraced.acts q _ after hrun).trans (.closed .merge [] hne ?_)
        exact h ▸ .of_quiet (quiet_rise _)
      · have hnested := htraced.nested q _ after hrun (List.cons_ne_nil _ _)
        simp [hnested]

/-- A scope is closed; the template of a component is rendered after the scope of its body. -/
theorem acts_closeScope (htraced : Traced host run trace) {i : Instr} (hop : i.op = .exitScope) {m m' : State}
    (houter : m.outer ≠ []) (h : closeScope host run i m = (.ok (), m')) :
    Acts host m (stepEvents host trace i m) m' ∧ m'.outer.length + 1 = m.outer.length ∧
      .filled ∉ stepEvents host trace i m := by
  have hleave := length_leave houter
  -- all but components dispose of the output at once
  have hplain (hq : Quiet host (m.close i.mode i.name) m') (hmode : i.mode ≠ .component) :
      Acts host m (stepEvents host trace i m) m' ∧ m'.outer.length + 1 = m.outer.length ∧
        .filled ∉ stepEvents host trace i m := by
    have hevents : stepEvents host trace i m = [.closed i.mode i.name] := by
      simp only [stepEvents, hop]
      split
      · rename_i hcomponent _
        exact absurd hcomponent hmode
      · rfl
    rw [hevents]
    exact ⟨.closed _ _ houter (.of_quiet hq), by rw [hq.depth, outer_close, hleave], by simp⟩
  cases hmode : i.mode with
  | merge | discard | push | define =>
    simp only [closeScope, hmode, Prod.mk.injEq, true_and] at h
    exact hplain (by rw [hmode, ← h]; exact .refl _) (by simp [hmode])
  | slot =>
    simp only [closeScope, hmode, Prod.mk.injEq, true_and] at h
    exact hplain (by rw [hmode, ← h]; exact quiet_setSlot _ _ _) (by simp [hmode])
  | unknown code => simp [closeScope, hmode] at h
  | component =>
    simp only [closeScope, hmode] at h
    cases hvars : componentVars host i m with
    | error e => simp [hvars] at h
    | ok vars =>
      simp only [hvars] at h
      obtain ⟨hacts, hdepth, hfilled⟩ := acts_template htraced h
      simp only [stepEvents, hop, hmode, hvars]
      exact ⟨.closed .component i.name houter hacts, by rw [hdepth, hleave], by simp [hfilled]⟩

/-- A step goes by its events and keeps count of the scopes it opens. Only an instruction to fill in
placeholders does so, at the root. -/
structure StepTraced (host : Host) (trace : Program → State → List Event) (i : Instr) (f f' : Frame) : Prop where
  acts : Acts host f.state (stepEvents host trace i f.state) f'.state
  depth : f'.state.outer.length + f.opened = f.state.outer.length + f'.opened
  filled : .filled ∈ stepEvents host trace i f.state → i.op = .resolve ∧ f.state.isRoot = true

theorem stepTraced (htraced : Traced host run trace) {p : Program} {i : Instr} {f f' : Frame}
    (hopened : f.opened ≤ f.state.outer.length) (h : step host run p i f = .next f') :
    StepTraced host trace i f f' := by
  have quiet (hevents : stepEvents host trace i f.state = []) (hq : Quiet host f.state f'.state)
      (hcount : f'.opened = f.opened) : StepTraced host trace i f f' :=
    ⟨hevents ▸ .of_quiet hq, by rw [hq.depth, hcount], by simp [hevents]⟩
  have single {e : Event} (hevents : stepEvents host trace i f.state = [e]) (hacts : Acts host f.state [e] f'.state)
      (hdepth : f'.state.outer.length + f.opened = f.state.outer.length + f'.opened) (he : e ≠ .filled) :
      StepTraced host trace i f f' :=
    ⟨hevents ▸ hacts, hdepth, by simp [hevents, he.symm]⟩
  cases hop : i.op with
  | comment | label | jump =>
    simp only [step, hop, Step.next.injEq] at h
    exact quiet (by simp [stepEvents, hop]) (by rw [← h]; exact .refl _) (by rw [← h])
  | jumpIfNot =>
    simp only [step, hop] at h
    split at h
    · cases h
    · split at h <;> cases h <;> exact quiet (by simp [stepEvents, hop]) (.refl _) rfl
  | set =>
    simp only [step, hop] at h
    split at h
    · cases h
    · cases h
      exact quiet (by simp [stepEvents, hop]) (quiet_set _ _ _) rfl
  | bind =>
    simp only [step, hop] at h
    split at h
    · cases h
    · cases h
      exact quiet (by simp [stepEvents, hop]) (quiet_setAll _ _) rfl
  | range =>
    simp only [step, hop] at h
    split at h
    · cases h
    · split at h
      · cases h
      · rename_i entries _
        cases h
        cases entries with
        | nil => exact quiet (by simp [stepEvents, hop]) (.refl _) rfl
        | cons e rest => exact quiet (by simp [stepEvents, hop]) (by simp only [startLoop]; exact quiet_bind _ _ _) rfl
  | next =>
    simp only [step, hop] at h
    split at h
    · cases h
    · rename_i l others _
      split at h
      · cases h
      · cases h
        refine quiet (by simp [stepEvents, hop]) ?_ ?_ <;> unfold advanceLoop <;> split
        · exact .refl _
        · exact quiet_bind _ _ _
        · rfl
        · rfl
  | text =>
    simp only [step, hop, Step.next.injEq] at h
    subst h
    exact single (by simp only [stepEvents, hop]) (.wrote _ .refl) rfl (by simp)
  | emit =>
    simp only [step, hop] at h
    split at h
    · cases h
    · rename_i v hv
      have hwrite : (if i.escape then f.state.writeEscaped v.rendered else f.state.write v.rendered) =
          f.state.write (if i.escape then Text.escapeHtml v.rendered else v.rendered) := by split <;> rfl
      rw [hwrite, Step.next.injEq] at h
      subst h
      exact single (by simp only [stepEvents, hop, hv]) (.wrote _ .refl) rfl (by simp)
  | placeholder =>
    simp only [step, hop, Step.next.injEq] at h
    subst h
    exact single (by simp only [stepEvents, hop]) (.placed _ _ _ .refl) (by simp) (by simp)
  | enterScope =>
    simp only [step, hop, Step.next.injEq] at h
    subst h
    refine single (by simp only [stepEvents, hop]) (.opened _ rfl .refl) ?_ (by simp)
    simp only [State.enter, List.length_cons]
    omega
  | resolve =>
    simp only [step, hop, Step.next.injEq] at h
    subst h
    have hevents : stepEvents host trace i f.state = fillEvents f.state := by simp only [stepEvents, hop]
    exact ⟨hevents ▸ acts_fill f.state, by simp, fun hmem => ⟨hop, isRoot_of_mem_fillEvents (hevents ▸ hmem)⟩⟩
  | exitScope =>
    simp only [step, hop] at h
    split at h
    · cases h
    · rename_i opened hcount
      split at h
      · cases h
      · rename_i m hclose
        cases h
        have houter : f.state.outer ≠ [] := List.ne_nil_of_length_pos (by omega)
        obtain ⟨hacts, hdepth, hfilled⟩ := acts_closeScope htraced hop houter hclose
        refine ⟨hacts, ?_, fun hmem => absurd hmem hfilled⟩
        dsimp only
        omega
  | render =>
    simp only [step, hop] at h
    split at h
    · cases h
    · rename_i vars hvars
      split at h
      · cases h
      · rename_i m hrender
        cases h
        obtain ⟨hacts, hdepth, hfilled⟩ := acts_template htraced hrender
        have hevents : stepEvents host trace i f.state = templateEvents host trace i.name vars f.state := by
          simp only [stepEvents, hop, hvars]
        exact ⟨hevents ▸ hacts, by simp only [hdepth], fun hmem => absurd (hevents ▸ hmem) hfilled⟩
  | unknown code => simp [step, hop] at h

end

/-- The events of a run that goes on. -/
theorem events_next {host : Host} {fuel : Nat} {p : Program} {i : Instr} {f f' : Frame} (hi : p.instrs[f.pc]? = some i)
    (hs : step host (fun q m => exec host fuel q { state := m }) p i f = .next f') :
    events host (fuel + 1) p f =
      stepEvents host (fun q m => events host fuel q { state := m }) i f.state ++ events host fuel p f' := by
  rw [events, hi]
  simp only [hs]

/-- A run that ends well takes a step, or is at its end. -/
theorem exec_ok_cases {host : Host} {fuel : Nat} {p : Program} {f : Frame} {m : State}
    (h : exec host (fuel + 1) p f = (.ok (), m)) :
    (p.instrs[f.pc]? = none ∧ f.opened = 0 ∧ m = f.state.resolve) ∨
      ∃ i f', p.instrs[f.pc]? = some i ∧
        step host (fun q m => exec host fuel q { state := m }) p i f = .next f' ∧ exec host fuel p f' = (.ok (), m) := by
  rw [exec] at h
  split at h
  · rename_i hend
    unfold Frame.finish at h
    split at h
    · rename_i hopened
      cases h
      exact .inl ⟨hend, hopened, rfl⟩
    · cases h
  · rename_i i hi
    split at h
    · cases h
    · rename_i f' hs
      exact .inr ⟨i, f', hi, hs, h⟩

/-- A run that ends well goes by its trace, and closes all that it opened. Only at the root it fills in
placeholders. The induction is on the steps, which are fewer for each template inside. -/
theorem acts_exec (host : Host) : ∀ (fuel : Nat) (p : Program) (f : Frame) (m : State),
    f.opened ≤ f.state.outer.length → exec host fuel p f = (.ok (), m) →
    Acts host f.state (events host fuel p f) m ∧ m.outer.length + f.opened = f.state.outer.length ∧
      (f.opened < f.state.outer.length → .filled ∉ events host fuel p f)
  | 0, _, _, _, _, h => by cases h
  | fuel + 1, p, f, m, hopened, h => by
    have htraced : Traced host (fun q m => exec host fuel q { state := m }) fun q m => events host fuel q { state := m } :=
      { acts := fun q m m' hrun => (acts_exec host fuel q _ m' (Nat.zero_le _) hrun).1
        depth := fun q m m' hrun => (acts_exec host fuel q _ m' (Nat.zero_le _) hrun).2.1
        nested := fun q m m' hrun houter =>
          (acts_exec host fuel q _ m' (Nat.zero_le _) hrun).2.2 (List.length_pos_iff.mpr houter) }
    rcases exec_ok_cases h with ⟨hend, hclosed, rfl⟩ | ⟨i, f', hi, hs, hrest⟩
    · have hevents : events host (fuel + 1) p f = fillEvents f.state := by simp only [events, hend]
      rw [hevents]
      refine ⟨?_, by rw [outer_resolve, hclosed, Nat.add_zero], fun hlt hmem => ?_⟩
      · exact acts_fill f.state
      · have hroot := length_outer_of_isRoot (isRoot_of_mem_fillEvents hmem)
        omega
    · have hstep := stepTraced htraced hopened hs
      have hdepth := hstep.depth
      obtain ⟨hacts, hm, hnested⟩ := acts_exec host fuel p f' m (by omega) hrest
      rw [events_next hi hs]
      refine ⟨hstep.acts.trans hacts, by omega, fun hlt hmem => ?_⟩
      rcases List.mem_append.mp hmem with hmem | hmem
      · have hroot := length_outer_of_isRoot (hstep.filled hmem).2
        omega
      · exact hnested (by omega) hmem

end Stencil.Render
