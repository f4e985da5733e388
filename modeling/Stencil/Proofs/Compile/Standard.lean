import Stencil.Proofs.Compile.Emission
import Stencil.Proofs.Compile.Hooks

/-! # The standard directives emit statements

One lemma for each standard directive says how its life ends, given what the compilation of its
children does. Induction on the tree and on the number of includes that may still follow then gives
`emits_compileNode`: every node emits statements. -/

namespace Stencil.Compile

open Stencil.Directive
open Stencil.Directive.Standard
open Stencil.Markup (Node Tag)
open Statement (codeAll AllWellFormed)

section Directives
variable {env : Env} {ask : Requests} {tag : Tag} {owner : Bytes} {st : State}

/-- The life of a directive adds statements; a failure leaves the counts in order. -/
def Emitting (env : Env) (ask : Requests) (tag : Tag) (owner : Bytes) (st : State) (d : Definition) : Prop :=
  Ends (lifecycle env ask tag d owner st) (fun _ st' => ∃ ss, Emits st st' ss) (Survives st)

theorem Steady.andThen {f g : State → Outcome Unit} (hf : Steady f) (hg : Steady g) :
    Steady fun st => andThen (f st) fun _ st => g st := by
  intro st hst
  obtain ⟨st₁, ss, h₁, hss, hdata₁⟩ := hf st hst
  obtain ⟨st₂, ts, h₂, hts, hdata₂⟩ := hg st₁ (hss.running.trans hst)
  exact ⟨st₂, ss ++ ts, by simp [Compile.andThen, h₁, h₂], hss.trans hts, hdata₂.trans hdata₁⟩

theorem Steady.ends {f : State → Outcome Unit} (hf : Steady f) {failed : State → Prop} (hst : st.canceled = false) :
    Ends (f st) (fun _ st' => ∃ ss, Emits st st' ss ∧ st'.data = st.data) failed := by
  obtain ⟨st', ss, h, hss, hdata⟩ := hf st hst
  rw [h]
  exact ⟨ss, hss, hdata⟩

/-- Directives without a hook for their children compile them. -/
theorem Serves.children (hask : Serves ask) (hchain : Steady ask.chain) {d : Definition} (hd : d.onChildren = none)
    (call : Call) : Steady (lifeOfChildren env ask d call) := by
  intro st hst
  simp only [lifeOfChildren, hd]
  exact (hask.compile .regular).andThen hchain st hst

/-- A directive whose hook for the arguments adds statements and that has no other hooks. -/
theorem emitting_of_params (hask : Serves ask) (hchain : Steady ask.chain) (hst : st.canceled = false) {d : Definition}
    (hinit : d.onInit = none) (hchildren : d.onChildren = none) (hend : d.onEnd = none)
    (hparams : ∀ call, Ends (runHook env ask call d.onParams st) (fun _ st' => ∃ ss, Emits st st' ss) (Survives st)) :
    Emitting env ask tag owner st d := by
  refine ends_lifecycle (A := (· = st)) (B := fun st' => ∃ ss, Emits st st' ss)
    (C := fun st' => ∃ ss, Emits st st' ss) (.refl st) fun args _ => ⟨?_, ?_, ?_, ?_⟩
  · rw [hinit]
    exact rfl
  · rintro _ rfl
    exact hparams _
  · rintro st₂ ⟨ss, hss⟩
    refine ((hask.children hchain hchildren _).ends (hss.running.trans hst)).mono ?_
    rintro _ st₃ ⟨ts, hts, -⟩
    exact ⟨ss ++ ts, hss.trans hts⟩
  · intro st₃ h
    rw [hend]
    exact h

section Params
variable (hpart : env.part = .body) (hask : Serves ask) (hchain : Steady ask.chain) (hst : st.canceled = false)
include hpart hask hchain hst

theorem emitting_set : Emitting env ask tag owner st setDirective := by
  refine emitting_of_params hask hchain hst rfl rfl rfl fun call => ?_
  refine ((ends_setParams env ask call st).mono_failed ?_).mono ?_
  · rintro _ rfl
    exact .refl st
  · rintro _ _ ⟨name, -, rfl⟩
    exact ⟨_, .emit hpart rfl st⟩

theorem emitting_include : Emitting env ask tag owner st includeDirective := by
  refine emitting_of_params hask hchain hst rfl rfl rfl fun call => ?_
  simp only [includeDirective, runHook, runScript_bind, runScript_ofRead]
  refine (Ends.of_read (.refl st)).andThen ?_
  rintro path _ ⟨-, rfl⟩
  refine (Ends.of_read (.refl st)).andThen ?_
  rintro fallback _ ⟨-, rfl⟩
  rw [runScript]
  cases env.resolve st path with
  | ok src =>
    simp only [runScript, runScript_ofExcept]
    exact hask.embed path src _ st hst
  | error e =>
    cases fallback with
    | true => exact Emits.add hpart st path
    | false => exact Survives.refl st

theorem emitting_yield : Emitting env ask tag owner st yieldDirective := by
  refine emitting_of_params hask hchain hst rfl rfl rfl fun call => ?_
  simp only [yieldDirective, runHook, runScript_bind, runScript_ofRead, runScript_emits]
  refine (Ends.of_read (.refl st)).andThen ?_
  rintro name _ ⟨-, rfl⟩
  refine (Ends.of_read (.refl st)).andThen ?_
  rintro fallback _ ⟨-, rfl⟩
  exact ⟨_, .emit hpart rfl st⟩

omit hpart in
theorem emitting_extends : Emitting env ask tag owner st extendsDirective := by
  refine emitting_of_params hask hchain hst rfl rfl rfl fun call => ?_
  simp only [extendsDirective, runHook, runScript_bind, runScript_ofRead, runScript_state?, andThen]
  refine (Ends.of_read (.refl st)).andThen ?_
  rintro path _ ⟨-, rfl⟩
  cases Assoc.get? extendsKey st.memory with
  | some previous => exact Survives.refl st
  | none => exact ⟨[], .memory st _⟩

theorem emitting_stack : Emitting env ask tag owner st stackDirective := by
  refine emitting_of_params hask hchain hst rfl rfl rfl fun call => ?_
  simp only [stackDirective, runHook, runScript_bind, runScript_ofRead]
  refine (Ends.of_read (.refl st)).andThen ?_
  rintro name _ ⟨-, rfl⟩
  -- the stacks rendered so far are read without a change
  have hnames : Ends (runScript env ask stackNames st) (fun _ st' => st = st') (Survives st) := by
    simp only [stackNames, runScript_bind, runScript_state?, andThen]
    cases Assoc.get? stackNamesKey st.memory with
    | none => exact Survives.refl st
    | some v => cases v <;> first | exact rfl | exact Survives.refl st
  refine hnames.andThen ?_
  rintro names _ rfl
  split
  · exact Survives.refl st
  · simp only [runScript_bind, runScript_remember, runScript_emits, andThen]
    exact ⟨_, (Emits.memory st _).trans (.emit hpart rfl _)⟩

end Params

/-! ### Directives that open a scope -/

/-- How many component blocks are open, as the compilation remembers it. -/
def State.componentDepth (st : State) : Int :=
  match Assoc.get? componentDepthKey st.memory with
  | some (.int n) => n
  | _ => 0

theorem runScript_componentDepth (st : State) :
    runScript env ask componentDepth st = (.ok st.componentDepth, st) := by
  rw [Standard.componentDepth, runScript_bind, runScript_state?, andThen, State.componentDepth]
  cases Assoc.get? componentDepthKey st.memory with
  | none => rfl
  | some v => cases v <;> rfl

/-- A directive that opens a scope before its children and closes it after them. -/
theorem emitting_of_scope (hst : st.canceled = false) {d : Definition} (opening : Instr) (hopening : opening.op = .enterScope)
    (hinit : d.onInit = none) (hchildren : ∀ call, Steady (lifeOfChildren env ask d call))
    (hparams : ∀ call, Ends (runHook env ask call d.onParams st) (fun _ st' => Adds st st' [opening]) (Survives st))
    (hend : ∀ call st', Ends (runHook env ask call d.onEnd st')
      (fun _ st'' => ∃ closing, closing.op = .exitScope ∧ closing.mode.isKnown = true ∧ Adds st' st'' [closing])
      (Survives st')) :
    Emitting env ask tag owner st d := by
  refine ends_lifecycle (A := (· = st)) (B := fun st' => Adds st st' [opening])
    (C := fun st' => ∃ st₁ ss, Adds st st₁ [opening] ∧ Emits st₁ st' ss) (.refl st) fun args _ => ⟨?_, ?_, ?_, ?_⟩
  · rw [hinit]
    exact rfl
  · rintro _ rfl
    exact hparams _
  · intro st₁ h₁
    refine ((hchildren _).ends (h₁.running.trans hst)).mono ?_
    rintro _ st₂ ⟨ss, hss, -⟩
    exact ⟨st₁, ss, h₁, hss⟩
  · rintro st₂ ⟨st₁, ss, h₁, h₂⟩
    refine (hend _ st₂).mono_failed (fun st' h => (h₁.survives.trans h₂.survives).trans h) |>.mono ?_
    rintro _ st₃ ⟨closing, hclosing, hmode, h₃⟩
    exact ⟨_, .scope hopening hclosing hmode h₁ h₂ h₃⟩

section Scopes
variable (hpart : env.part = .body) (hask : Serves ask) (hchain : Steady ask.chain) (hst : st.canceled = false)
include hpart hask hchain hst

theorem emitting_section : Emitting env ask tag owner st sectionDirective := by
  refine emitting_of_scope hst .enter rfl rfl (hask.children hchain rfl) (fun call => adds_emit hpart st [.enter])
    fun call st' => ?_
  simp only [sectionDirective, runHook, runScript_bind, runScript_ofRead, runScript_emits]
  refine (Ends.of_read (.refl st')).andThen ?_
  rintro name _ ⟨-, rfl⟩
  exact ⟨_, rfl, rfl, adds_emit hpart st' _⟩

theorem emitting_push : Emitting env ask tag owner st pushDirective := by
  refine emitting_of_scope hst .enter rfl rfl (hask.children hchain rfl) (fun call => adds_emit hpart st [.enter])
    fun call st' => ?_
  simp only [pushDirective, runHook, runScript_bind, runScript_ofRead, runScript_emits]
  refine (Ends.of_read (.refl st')).andThen ?_
  rintro name _ ⟨-, rfl⟩
  exact ⟨_, rfl, rfl, adds_emit hpart st' _⟩

theorem emitting_slot : Emitting env ask tag owner st slotDirective := by
  refine emitting_of_scope hst .enter rfl rfl (hask.children hchain rfl) (fun call => ?_) fun call st' => ?_
  · simp only [slotDirective, runHook, runScript_bind, runScript_componentDepth, andThen]
    split
    · exact Survives.refl st
    · exact adds_emit hpart st [.enter]
  · simp only [slotDirective, runHook, runScript_bind, runScript_ofRead, runScript_emits]
    refine (Ends.of_read (.refl st')).andThen ?_
    rintro name _ ⟨-, rfl⟩
    exact ⟨_, rfl, rfl, adds_emit hpart st' _⟩

omit hpart hchain hst in
theorem steady_component (call : Call) : Steady (lifeOfChildren env ask componentDirective call) := by
  intro st hst
  have hdepth := Emits.memory st (Assoc.insert componentDepthKey (.int (st.componentDepth + 1)) st.memory)
  obtain ⟨st₂, ss, h₂, hss, hdata⟩ := hask.compile .regular _ (hdepth.running.trans hst)
  have hrestored := Emits.memory st₂ (Assoc.insert componentDepthKey (.int st.componentDepth) st₂.memory)
  refine ⟨_, ss ++ [], ?_, (hdepth.trans hss).trans hrestored, hdata⟩
  simp only [lifeOfChildren, componentDirective, runScript_bind, runScript_componentDepth, runScript_remember, andThen,
    runScript, h₂, runScript_ofExcept]

omit hchain in
theorem emitting_component : Emitting env ask tag owner st componentDirective := by
  refine emitting_of_scope hst .enterComponent rfl rfl (steady_component hask) (fun call => ?_)
    fun call st' => ⟨_, rfl, rfl, adds_emit hpart st' _⟩
  simp only [componentDirective, runHook, runScript_bind, runScript_ofRead, runScript_emits]
  refine (Ends.of_read (.refl st)).andThen ?_
  rintro path _ ⟨-, rfl⟩
  exact adds_emit hpart st _

end Scopes

/-! ### Scripts and styles -/

/-- A directive that only has a hook for its children. -/
theorem emitting_of_children {d : Definition} (hinit : d.onInit = none) (hparams : d.onParams = none)
    (hend : d.onEnd = none)
    (hchildren : ∀ call, Ends (lifeOfChildren env ask d call st) (fun _ st' => ∃ ss, Emits st st' ss) (Survives st)) :
    Emitting env ask tag owner st d := by
  refine ends_lifecycle (A := (st = ·)) (B := (st = ·)) (C := fun st' => ∃ ss, Emits st st' ss) (.refl st)
    fun args _ => ⟨?_, ?_, ?_, ?_⟩
  · rw [hinit]
    exact rfl
  · rintro _ rfl
    rw [hparams]
    exact rfl
  · rintro _ rfl
    exact hchildren _
  · intro st₃ h
    rw [hend]
    exact h

theorem ends_addAsset {channel : Bytes} (hchannel : channel ≠ primaryLoader) (text : Bytes) {failed : State → Prop} :
    Ends (runScript env ask (addAsset channel text) st) (fun _ st' => ∃ ss, Emits st st' ss) failed := by
  obtain ⟨channels, h⟩ := runScript_addTo env ask st (if Bytes.endsWith "\n" text then text else text ++ "\n") hchannel
  rw [addAsset, h]
  exact ⟨[], .of_adds_nil ⟨rfl, (List.append_nil _).symm, rfl, rfl, Nat.le_refl _, rfl⟩⟩

theorem emitting_client : Emitting env ask tag owner st clientDirective := by
  refine emitting_of_children rfl rfl rfl fun call => ?_
  simp only [lifeOfChildren, clientDirective, runScript_bind, runScript_ofRead, runScript_literal]
  refine (Ends.of_read (.refl st)).andThen ?_
  rintro options _ ⟨-, rfl⟩
  refine (Ends.of_read (.refl st)).andThen ?_
  rintro body _ ⟨-, rfl⟩
  exact ends_addAsset (by decide) _

theorem emitting_style : Emitting env ask tag owner st styleDirective := by
  refine emitting_of_children rfl rfl rfl fun call => ?_
  simp only [lifeOfChildren, styleDirective, runScript_bind, runScript_ofRead, runScript_literal]
  refine (Ends.of_read (.refl st)).andThen ?_
  rintro media _ ⟨-, rfl⟩
  refine (Ends.of_read (.refl st)).andThen ?_
  rintro body _ ⟨-, rfl⟩
  exact ends_addAsset (by decide) _

/-! ### Loops -/

theorem emitting_each (hpart : env.part = .body) (hask : Serves ask) (hchain : Steady ask.chain)
    (hst : st.canceled = false) : Emitting env ask tag owner st eachDirective := by
  refine ends_lifecycle (A := (st = ·))
    (B := fun st₁ => st₁.data = st.looping.data ∧ st₁.labels = st.labels + 3 ∧ ∃ items item key,
      Adds st st₁ [.enter, Statement.rangeInstr items item key (st.labels + 2 : Nat), .mark (st.labels + 1 : Nat)])
    (C := fun st' => ∃ ss, Emits st st' ss) (.refl st) fun args _ => ⟨rfl, ?_, ?_, fun _ h => h⟩
  · rintro _ rfl
    refine ((ends_eachParams env ask _ st).mono_failed ?_).mono ?_
    · rintro _ rfl
      exact .refl st
    · rintro _ _ ⟨item, key, -, -, rfl⟩
      exact ⟨rfl, rfl, _, _, _, (adds_emit hpart _ _).of_start rfl (Nat.le_add_right _ 3) rfl⟩
  · rintro st₁ ⟨hdata₁, hlabels₁, items, item, key, h₁⟩
    obtain ⟨st₂, ss, hbody, h₂, hdata₂⟩ := hask.compile .regular st₁ (h₁.running.trans hst)
    obtain ⟨hagain, hempty, hstop⟩ := State.keptLabel_looping (hdata₂.trans hdata₁)
    have h₃ := adds_emit hpart st₂ [Statement.nextInstr (st.labels + 1 : Nat), .jump (st.labels + 3 : Nat),
      .mark (st.labels + 2 : Nat)]
    obtain ⟨st₄, ts, hrest, h₄, hdata₄⟩ := hchain _ (h₃.running.trans (h₂.running.trans (h₁.running.trans hst)))
    obtain ⟨-, -, hstop₄⟩ := State.keptLabel_looping (hdata₄.trans (hdata₂.trans hdata₁))
    have hfresh : Fresh st.labels st₁.labels
        [((st.labels + 1 : Nat) : Int), ((st.labels + 2 : Nat) : Int), ((st.labels + 3 : Nat) : Int)] := by
      rw [hlabels₁]
      exact ((Fresh.single st.labels).append (Fresh.single _) (Nat.le_add_right _ 1) (Nat.le_add_right _ 1)).append
        (Fresh.single _) (Nat.le_add_right _ 2) (Nat.le_add_right _ 1)
    simp only [lifeOfChildren_each, hbody, andThen, hagain, hempty, hstop, hrest, hstop₄]
    exact ⟨_, .loop hfresh h₁ h₂ h₃ h₄ (adds_emit hpart st₄ _)⟩

/-! ### Chains of branches -/

/-- The label that an open branch keeps; zero when no branch is open. -/
def nextOf : Option Arm → Int
  | none => 0
  | some a => a.next

/-- The chain of a condition so far, as its code and as its data. -/
def IfChain (st st' : State) : Prop :=
  ∃ stop done arm, Chain st st' stop done arm ∧ st'.keptLabel "end" = stop ∧ st'.keptLabel "next" = nextOf arm

theorem IfChain.emit {st st₁ st₂ : State} {ss : List Statement} (h : IfChain st st₁) (h' : Emits st₁ st₂ ss)
    (hdata : st₂.data = st₁.data) : IfChain st st₂ := by
  obtain ⟨stop, done, arm, hchain, hstop, hnext⟩ := h
  obtain ⟨done', arm', hchain', harm⟩ := hchain.emit h'
  refine ⟨stop, done', arm', hchain', (State.keptLabel_congr hdata _).trans hstop,
    (State.keptLabel_congr hdata _).trans (hnext.trans ?_)⟩
  cases arm <;> cases arm' <;> simp_all [nextOf]

theorem IfChain.running {st st₁ : State} (h : IfChain st st₁) : st₁.canceled = st.canceled := by
  obtain ⟨_, _, _, hchain, -⟩ := h
  exact hchain.toAdds.running

/-- The open branch is closed; nothing is open after it. -/
theorem IfChain.leave {st st₁ : State} (hpart : env.part = .body) (h : IfChain st st₁) (hopen : st₁.keptLabel "next" ≠ 0) :
    ∃ done, Chain st (st₁.emit env.part [.jump (st₁.keptLabel "end"), .mark (st₁.keptLabel "next")])
      (st₁.keptLabel "end") done none := by
  obtain ⟨stop, done, arm, hchain, rfl, hnext⟩ := h
  cases arm with
  | none => exact absurd hnext hopen
  | some a => exact ⟨_, hchain.leave (hnext ▸ adds_emit hpart st₁ _)⟩

/-- The chain of a choice so far. Every case is closed before the next begins. -/
def SwitchChain (st st' : State) : Prop :=
  ∃ stop done, Chain st st' stop done none ∧ st'.keptLabel "end" = stop

theorem SwitchChain.emit {st st₁ st₂ : State} {ss : List Statement} (h : SwitchChain st st₁) (h' : Emits st₁ st₂ ss)
    (hdata : st₂.data = st₁.data) : SwitchChain st st₂ := by
  obtain ⟨stop, done, hchain, hstop⟩ := h
  obtain ⟨done', arm', hchain', harm⟩ := hchain.emit h'
  cases arm' with
  | none => exact ⟨stop, done', hchain', (State.keptLabel_congr hdata _).trans hstop⟩
  | some a => simp at harm

theorem SwitchChain.running {st st₁ : State} (h : SwitchChain st st₁) : st₁.canceled = st.canceled := by
  obtain ⟨_, _, hchain, -⟩ := h
  exact hchain.toAdds.running

/-- The chain of a choice in one of its cases, whose label is kept as well. -/
def CaseOpen (st st' : State) : Prop :=
  ∃ stop done a, Chain st st' stop done (some a) ∧ st'.keptLabel "end" = stop ∧ st'.keptLabel "case" = a.next

theorem CaseOpen.emit {st st₁ st₂ : State} {ss : List Statement} (h : CaseOpen st st₁) (h' : Emits st₁ st₂ ss)
    (hdata : st₂.data = st₁.data) : CaseOpen st st₂ := by
  obtain ⟨stop, done, a, hchain, hstop, hcase⟩ := h
  obtain ⟨done', arm', hchain', harm⟩ := hchain.emit h'
  cases arm' with
  | none => simp at harm
  | some a' =>
    have hnext : a'.next = a.next := by simpa using harm
    exact ⟨stop, done', a', hchain', (State.keptLabel_congr hdata _).trans hstop,
      (State.keptLabel_congr hdata _).trans (hcase.trans hnext.symm)⟩

section Branches
variable (hpart : env.part = .body)
include hpart

theorem ends_ifParams (call : Call) :
    Ends (runHook env ask call ifDirective.onParams st) (fun _ => IfChain st) (Survives st) := by
  rw [runHook_ifParams]
  have hstart : Chain st st.numbered _ [] none :=
    .start (Fresh.single st.labels) ((Adds.refl st).congr rfl (Nat.le_succ _) rfl)
  refine ⟨(st.labels + 1 : Nat), [], some ⟨call.args.rawD "condition", (st.labels + 2 : Nat), []⟩,
    hstart.branch (Fresh.single _) ((adds_emit hpart _ _).of_start rfl (Nat.le_succ _) rfl), ?_, ?_⟩
  · rw [State.keptLabel_emit, State.keptLabel_keeping_ne _ _ _ _ (show ("end" : Bytes) ≠ "next" by decide),
      State.keptLabel_keeping_self]
  · rw [State.keptLabel_emit, State.keptLabel_keeping_self, nextOf]

/-- A chain of conditions is closed by the marks of its open branch, if any, and of its end. -/
theorem ends_ifEnd (call : Call) {st st₁ : State} (h : IfChain st st₁) {failed : State → Prop} :
    Ends (runHook env ask call ifDirective.onEnd st₁) (fun _ st' => ∃ ss, Emits st st' ss) failed := by
  obtain ⟨stop, done, arm, hchain, hstop, hnext⟩ := h
  rw [runHook_ifEnd, hnext, hstop]
  cases arm with
  | none => exact ⟨_, hchain.close (adds_emit hpart st₁ _)⟩
  | some a =>
    rw [nextOf, closing, if_neg hchain.next_ne_zero]
    exact ⟨_, hchain.closeLast (adds_emit hpart st₁ _)⟩

/-- A step that always succeeds and keeps an invariant of the chain at hand. -/
def Carries (f : State → Outcome Unit) (I : State → Prop) : Prop :=
  ∀ st, st.canceled = false → I st → ∃ st', f st = (.ok (), st') ∧ I st'

/-- A part of a chain keeps an invariant of the chain; a failing part leaves the data. -/
def Continues (env : Env) (ask : Requests) (tag : Tag) (owner : Bytes) (I : State → Prop) (p : Definition) : Prop :=
  ∀ st, st.canceled = false → I st → Ends (lifecycle env ask tag p owner st) (fun _ => I)
    (fun st' => Survives st st' ∧ st'.data = st.data)

variable (hask : Serves ask) (hchain : Steady ask.chain)
include hask hchain

theorem continues_elseif (start : State) : Continues env ask tag owner (IfChain start) elseifPart := by
  intro st hst hif
  refine ends_lifecycle (A := (st = ·)) (B := fun st' => IfChain start st' ∧ st'.canceled = false)
    (C := IfChain start) ⟨.refl st, rfl⟩ fun args _ => ⟨rfl, ?_, ?_, fun _ h => h⟩
  · rintro _ rfl
    rw [runHook_elseifParams]
    split
    · exact ⟨.refl st, rfl⟩
    · rename_i hopen
      obtain ⟨done, hleft⟩ := hif.leave hpart hopen
      refine ⟨⟨_, _, some ⟨args.rawD "condition", (st.labels + 1 : Nat), []⟩, hleft.branch (Fresh.single _)
        ((adds_emit hpart _ _).of_start rfl (Nat.le_succ _) rfl), ?_, ?_⟩, hst⟩
      · rw [State.keptLabel_emit, State.keptLabel_keeping_ne _ _ _ _ (show ("end" : Bytes) ≠ "next" by decide)]
        rfl
      · rw [State.keptLabel_emit, State.keptLabel_keeping_self, nextOf]
  · rintro st₂ ⟨h₂, hrun₂⟩
    refine ((hask.children hchain rfl _).ends hrun₂).mono ?_
    rintro _ st₃ ⟨ss, hss, hdata⟩
    exact h₂.emit hss hdata

theorem continues_else (start : State) : Continues env ask tag owner (IfChain start) elsePart := by
  intro st hst hif
  refine ends_lifecycle (A := fun st' => IfChain start st' ∧ st'.canceled = false)
    (B := fun st' => IfChain start st' ∧ st'.canceled = false)
    (C := IfChain start) ⟨.refl st, rfl⟩ fun args _ => ⟨?_, fun _ h => h, ?_, fun _ h => h⟩
  · rw [runHook_elseInit]
    split
    · exact ⟨.refl st, rfl⟩
    · rename_i hopen
      obtain ⟨done, hleft⟩ := hif.leave hpart hopen
      refine ⟨⟨_, _, none, hleft.congr rfl (Nat.le_refl _) rfl, ?_, ?_⟩, hst⟩
      · rw [State.keptLabel_keeping_ne _ _ _ _ (show ("end" : Bytes) ≠ "next" by decide)]
        rfl
      · rw [State.keptLabel_keeping_self, nextOf]
  · rintro st₂ ⟨h₂, hrun₂⟩
    refine ((hask.children hchain rfl _).ends hrun₂).mono ?_
    rintro _ st₃ ⟨ss, hss, hdata⟩
    exact h₂.emit hss hdata

theorem continues_case (start : State) : Continues env ask tag owner (SwitchChain start) casePart := by
  intro st hst hswitch
  refine ends_lifecycle (A := (st = ·)) (B := fun st' => CaseOpen start st' ∧ st'.canceled = false)
    (C := CaseOpen start) ⟨.refl st, rfl⟩ fun args _ => ⟨rfl, ?_, ?_, ?_⟩
  · rintro _ rfl
    rw [runHook_caseParams]
    split
    · exact ⟨.refl st, rfl⟩
    · obtain ⟨stop, done, hclosed, hstop⟩ := hswitch
      refine ⟨⟨stop, done, _, hclosed.branch (Fresh.single st.labels)
        ((adds_emit hpart (st.numbered.keeping _ _) _).of_start rfl (Nat.le_succ _) rfl), ?_, ?_⟩, hst⟩
      · rw [State.keptLabel_emit, State.keptLabel_keeping_ne _ _ _ _ (show ("end" : Bytes) ≠ "case" by decide)]
        exact hstop
      · rw [State.keptLabel_emit, State.keptLabel_keeping_self]
  · rintro st₂ ⟨h₂, hrun₂⟩
    refine ((hask.children hchain rfl _).ends hrun₂).mono ?_
    rintro _ st₃ ⟨ss, hss, hdata⟩
    exact h₂.emit hss hdata
  · rintro st₃ ⟨stop, done, a, h₃, hstop, hcase⟩
    rw [runHook_caseEnd, hstop, hcase]
    exact ⟨stop, _, h₃.leave (adds_emit hpart st₃ _), (State.keptLabel_emit _ _ _ _).trans hstop⟩

omit hpart in
theorem continues_default (start : State) : Continues env ask tag owner (SwitchChain start) defaultPart := by
  intro st hst hswitch
  refine ends_lifecycle (A := fun st' => SwitchChain start st' ∧ st'.canceled = false)
    (B := fun st' => SwitchChain start st' ∧ st'.canceled = false)
    (C := SwitchChain start) ⟨.refl st, rfl⟩ fun args _ => ⟨?_, fun _ h => h, ?_, fun _ h => h⟩
  · rw [runHook_defaultInit]
    split
    · exact ⟨.refl st, rfl⟩
    · obtain ⟨stop, done, hclosed, hstop⟩ := hswitch
      refine ⟨⟨stop, done, hclosed.congr rfl (Nat.le_refl _) rfl, ?_⟩, hst⟩
      rw [State.keptLabel_keeping_ne _ _ _ _ (show ("end" : Bytes) ≠ "default" by decide)]
      exact hstop
  · rintro st₂ ⟨h₂, hrun₂⟩
    refine ((hask.children hchain rfl _).ends hrun₂).mono ?_
    rintro _ st₃ ⟨ss, hss, hdata⟩
    exact h₂.emit hss hdata

omit hchain in
theorem emitting_if (hst : st.canceled = false) (hparts : Carries ask.chain (IfChain st)) :
    Emitting env ask tag owner st ifDirective := by
  refine ends_lifecycle (A := (st = ·)) (B := IfChain st) (C := IfChain st) (.refl st)
    fun args _ => ⟨rfl, ?_, ?_, fun st₃ h₃ => ends_ifEnd hpart _ h₃⟩
  · rintro _ rfl
    exact ends_ifParams hpart _
  · intro st₁ h₁
    obtain ⟨st₂, ss, hbody, h₂, hdata₂⟩ := hask.compile .regular st₁ (h₁.running.trans hst)
    have h₂' := h₁.emit h₂ hdata₂
    obtain ⟨st₃, hrest, h₃⟩ := hparts st₂ (h₂'.running.trans hst) h₂'
    simp only [lifeOfChildren, ifDirective, hbody, andThen, hrest]
    exact h₃

omit hchain hask in
theorem emitting_switch (hst : st.canceled = false) (hparts : Carries ask.chain (SwitchChain st)) :
    Emitting env ask tag owner st switchDirective := by
  refine ends_lifecycle (A := (st = ·)) (B := SwitchChain st) (C := SwitchChain st) (.refl st)
    fun args _ => ⟨rfl, ?_, ?_, ?_⟩
  · rintro _ rfl
    rw [runHook_switchParams]
    refine SwitchChain.emit ⟨(st.labels + 2 : Nat), [], ?_, ?_⟩ (.emit hpart rfl _) rfl
    · exact .start ((Fresh.single (st.labels + 1)).widen (Nat.le_succ _) (Nat.le_refl _))
        ((Adds.refl st).congr rfl (Nat.le_add_right _ 2) rfl)
    · rw [State.keptLabel_keeping_self]
  · intro st₁ h₁
    obtain ⟨st₂, hrest, h₂⟩ := hparts st₁ (h₁.running.trans hst) h₁
    simp only [lifeOfChildren, switchDirective, runScript_chained, hrest]
    exact h₂
  · rintro st₂ ⟨stop, done, h₂, hstop⟩
    rw [runHook_switchEnd, hstop]
    exact ⟨_, h₂.close (adds_emit hpart st₂ _)⟩

end Branches

end Directives

end Stencil.Compile
