import Stencil.Proofs.Program.Forward
import Stencil.Proofs.Render.Statements

/-! # Runs of statements

A run of the code of well formed statements comes to what the statements do (`reached_performAll`), when the
templates that are rendered inside come to what `run` says. A run of such code comes to an end, in whatever state it
starts, when all programs that can be loaded are such code too (`exists_ends`). Templates may render one another in
cycles: the induction is on how many templates may still be rendered inside one another, and within one program a run
follows its statements. -/

namespace Stencil.Render

open Statement (code codeAll WellFormed AllWellFormed codeAll_cons rangeInstr nextInstr)
open Program (marked)

/-- What a run from the second frame comes to, a run from the first does. -/
def Leads (host : Host) (p : Program) (f g : Frame) : Prop := ∀ o, Ends host p g o → Ends host p f o

/-- A run from the first frame comes to what a flow says. When something was done it stands at `after`, with all
else but the state as in the second frame. -/
def Flow.Reached (host : Host) (p : Program) (stop? : Option Int) (f g : Frame) (after : Nat) : Flow → Prop
  | .done m => Leads host p f { g with pc := after, state := m }
  | .left m => ∃ stop ∈ stop?, Leads host p f { g with pc := p.target stop + 1, state := m }
  | .failed i e => ∃ pc m, Ends host p f (.error (.instruction p.name pc i e), m)
  | .canceled => ∃ m, Ends host p f (.error .canceled, m)

section
variable {host : Host} {p : Program} {f f' g h : Frame} {stop? : Option Int} {mid after : Nat} {flow : Flow}

theorem Leads.refl (f : Frame) : Leads host p f f := fun _ h => h

theorem Leads.trans (hfg : Leads host p f g) (hgh : Leads host p g h) : Leads host p f h := fun o ho => hfg o (hgh o ho)

theorem Flow.Reached.before (hlead : Leads host p f f') (hreached : flow.Reached host p stop? f' g after) :
    flow.Reached host p stop? f g after := by
  cases flow with
  | done m => exact hlead.trans hreached
  | left m =>
    obtain ⟨stop, hstop, hleads⟩ := hreached
    exact ⟨stop, hstop, hlead.trans hleads⟩
  | failed i e =>
    obtain ⟨pc, m, hends⟩ := hreached
    exact ⟨pc, m, hlead _ hends⟩
  | canceled =>
    obtain ⟨m, hends⟩ := hreached
    exact ⟨m, hlead _ hends⟩

theorem Flow.Reached.andThen {next : State → Flow} (hreached : flow.Reached host p stop? f g mid)
    (hnext : ∀ m, flow = .done m → (next m).Reached host p stop? { g with pc := mid, state := m } g after) :
    (flow.andThen next).Reached host p stop? f g after := by
  cases flow with
  | done m => exact (hnext m rfl).before hreached
  | left | failed | canceled => exact hreached

/-- What goes on may change the rest of the frame, when nothing is left. -/
theorem Flow.Reached.andThen_none {g' : Frame} {next : State → Flow} (hreached : flow.Reached host p none f g mid)
    (hnext : ∀ m, flow = .done m → (next m).Reached host p stop? { g with pc := mid, state := m } g' after) :
    (flow.andThen next).Reached host p stop? f g' after := by
  cases flow with
  | done m => exact (hnext m rfl).before hreached
  | left m =>
    obtain ⟨stop, hstop, -⟩ := hreached
    cases hstop
  | failed | canceled => exact hreached

theorem Flow.Reached.onward (hreached : flow.Reached host p stop? f g mid)
    (hlead : ∀ m, flow = .done m → Leads host p { g with pc := mid, state := m } { g with pc := after, state := m }) :
    flow.Reached host p stop? f g after := by
  cases flow with
  | done m => exact hreached.trans (hlead m rfl)
  | left | failed | canceled => exact hreached

/-- The place and the state of the second frame do not count. -/
theorem Flow.Reached.base {pc : Nat} {m : State}
    (hreached : flow.Reached host p stop? f { g with pc, state := m } after) : flow.Reached host p stop? f g after := by
  cases flow <;> exact hreached

theorem Flow.Reached.widen (hreached : flow.Reached host p none f g after) : flow.Reached host p stop? f g after := by
  cases flow with
  | left m =>
    obtain ⟨stop, hstop, -⟩ := hreached
    cases hstop
  | done | failed | canceled => exact hreached

end

/-! ### Single steps -/

section
variable {P : Program → Prop} {host : Host} {depth : Nat} {run : Program → State → Outcome} {p : Program} {i : Instr}
  {f g : Frame}

/-- A program that is run inside a step can be replaced by what it comes to. -/
theorem exists_inside (hrun : Answers P host depth run) (hf : Within P host depth f.state) (p : Program) (i : Instr) :
    ∃ inside, (∀ q m, nested? host i f.state = some (q, m) → Ends host q { state := m } inside) ∧
      step host run p i f = step host (fun _ _ => inside) p i f := by
  cases hnested : nested? host i f.state with
  | none => exact ⟨(.ok (), f.state), nofun, step_congr (fun q m h => nomatch hnested.symm.trans h) p⟩
  | some found =>
    obtain ⟨q, m⟩ := found
    obtain ⟨hq, hm, hlt⟩ := hf.nested hnested
    refine ⟨run q m, fun q' m' h => ?_, step_congr (fun q' m' h => ?_) p⟩
    · cases h
      exact hrun.ends q m hq hm hlt
    · cases hnested.symm.trans h
      rfl

theorem leads_of_step (hrun : Answers P host depth run) (hf : Within P host depth f.state)
    (hi : p.instrs[f.pc]? = some i) (hs : step host run p i f = .next g) : Leads host p f g := by
  obtain ⟨inside, hinside, hstep⟩ := exists_inside hrun hf p i
  exact fun o ho => .next hi hinside (hstep ▸ hs) ho

theorem ends_of_step (hrun : Answers P host depth run) (hf : Within P host depth f.state)
    (hi : p.instrs[f.pc]? = some i) {e : Failure} (hs : step host run p i f = .stop e g) :
    Ends host p f (.error e, g.abandon) := by
  obtain ⟨inside, hinside, hstep⟩ := exists_inside hrun hf p i
  exact .stop hi hinside (hstep ▸ hs)

/-- What an instruction comes to at its place. -/
def Came (host : Host) (run : Program → State → Outcome) (p : Program) (i : Instr) (f g : Frame) :
    Except Failure State → Prop
  | .ok m => step host run p i f = .next { g with pc := f.pc + 1, state := m }
  | .error e => ∃ g', step host run p i f = .stop (.instruction p.name f.pc i e) g'

theorem came_act (host : Host) (run : Program → State → Outcome) (hop : i.op.isStraight = true) (p : Program) (f : Frame) :
    Came host run p i f f (act host run i f.state) := by
  unfold act
  cases h : i.op with
  | text | comment | placeholder | resolve => simp [Came, step, h]
  | emit | set =>
    cases hv : f.state.eval host i.expr with
    | error e => exact ⟨f, by simp only [step, h, hv]⟩
    | ok v => simp only [Came, Except.map, step, h, hv]
  | bind =>
    cases hv : f.state.evalBindings host i.expr with
    | error e => exact ⟨f, by simp only [step, h, hv]⟩
    | ok v => simp only [Came, Except.map, step, h, hv]
  | render =>
    cases hv : templateVars host i f.state with
    | error e => exact ⟨f, by simp only [step, h, hv]⟩
    | ok vars =>
      simp only [Except.bind]
      rcases hr : renderTemplate host run i.name vars f.state with ⟨e | u, m⟩
      · exact ⟨{ f with state := m }, by simp only [step, h, hv, hr]⟩
      · simp only [Came, Outcome.settled, step, h, hv, hr]
  | label | jump | jumpIfNot | enterScope | exitScope | range | next | unknown code =>
    rw [h] at hop
    cases hop

theorem came_close (host : Host) (run : Program → State → Outcome) (hop : i.op = .exitScope) (p : Program) {opened : Nat}
    (hopened : f.opened = opened + 1) :
    Came host run p i f { f with opened, loops := f.loops.map (Loop.detach f.state.outer.length) }
      (closeScope host run i f.state).settled := by
  rcases hclose : closeScope host run i f.state with ⟨e | u, m⟩
  · exact ⟨{ f with opened, loops := f.loops.map (Loop.detach f.state.outer.length), state := m },
      by simp only [step, hop, hopened, hclose]⟩
  · simp only [Came, Outcome.settled, step, hop, hopened, hclose]

/-- An instruction that goes on with the next one. -/
theorem Came.reached (hrun : Answers P host depth run) (hf : Within P host depth f.state)
    (hi : p.instrs[f.pc]? = some i) {r : Except Failure State} (h : Came host run p i f g r) (stop? : Option Int) :
    (Flow.of i r).Reached host p stop? f g (f.pc + 1) := by
  cases r with
  | error e =>
    obtain ⟨g', hs⟩ := h
    exact ⟨f.pc, g'.abandon, ends_of_step hrun hf hi hs⟩
  | ok m => exact leads_of_step hrun hf hi h

theorem leads_mark (hrun : Answers P host depth run) (hf : Within P host depth f.state) {l : Int} {rest : List Instr}
    (hcode : CodeAt p f.pc (.mark l :: rest)) : Leads host p f { f with pc := f.pc + 1 } :=
  leads_of_step hrun hf hcode.head rfl

theorem leads_jump (hrun : Answers P host depth run) (hf : Within P host depth f.state) {l : Int} {rest : List Instr}
    (hcode : CodeAt p f.pc (.jump l :: rest)) : Leads host p f { f with pc := p.target l + 1 } :=
  leads_of_step hrun hf hcode.head rfl

end

/-! ### Statements -/

/-- Loops bind their names in scopes that are open. -/
structure Frame.Ready (P : Program → Prop) (host : Host) (depth : Nat) (f : Frame) : Prop where
  within : Within P host depth f.state
  level_le : ∀ l ∈ f.loops, ∀ level ∈ l.level, level ≤ f.state.outer.length

section
variable {P : Program → Prop} {host : Host} {depth : Nat} {run : Program → State → Outcome} {p : Program} {f : Frame}

/-- The frame later in the same scopes. -/
theorem Frame.Ready.stays (hf : f.Ready P host depth) {m : State} (h : Stays P host f.state m) (pc : Nat) :
    Frame.Ready P host depth { f with pc, state := m } :=
  ⟨hf.within.stays h, fun l hl level hlevel => h.outer.symm ▸ hf.level_le l hl level hlevel⟩

theorem Frame.Ready.enter (hf : f.Ready P host depth) (s : Scope) (pc opened : Nat) :
    Frame.Ready P host depth { f with pc, opened, state := f.state.enter s } :=
  ⟨hf.within.congr rfl, fun l hl level hlevel => Nat.le_succ_of_le (hf.level_le l hl level hlevel)⟩

/-- Loops outside of a scope go on when the scope is closed. -/
theorem Frame.Ready.map_detach (hf : f.Ready P host depth) :
    f.loops.map (Loop.detach (f.state.outer.length + 1)) = f.loops := by
  refine (List.map_congr_left fun l hl => ?_).trans (List.map_id _)
  refine if_neg fun hlevel => ?_
  have := hf.level_le l hl _ hlevel
  omega

/-- The end of a turn of a loop. -/
theorem reached_next (hrun : Answers P host depth run) {l : Loop} {others : List Loop} {again : Int} {rest : List Instr}
    (hf : Within P host depth f.state) (hloops : f.loops = l :: others) (hcode : CodeAt p f.pc (nextInstr again :: rest))
    {next : Flow} {g : Frame} {after : Nat}
    (hnext : next.Reached host p none (advanceLoop p (nextInstr again) l others f) g after) :
    Flow.Reached host p none f g after (if f.state.shared.session.canceled then .canceled else next) := by
  split
  · rename_i hcanceled
    have hs : step host run p (nextInstr again) f = .stop .canceled f := by
      simp only [step, nextInstr, hloops, hcanceled, if_true]
    exact ⟨f.abandon, ends_of_step hrun hf hcode.head hs⟩
  · rename_i hcanceled
    have hs : step host run p (nextInstr again) f = .next (advanceLoop p (nextInstr again) l others f) := by
      simp only [step, nextInstr, hloops, hcanceled]
      rfl
    exact hnext.before (leads_of_step hrun hf hcode.head hs)

/-- The turns of a loop, from the body of the first on. -/
theorem reached_turns (hrun : Answers P host depth run) {body : State → Flow} {start mid : Nat} {again stop : Int}
    {code : List Instr} (hcode : CodeAt p mid (nextInstr again :: .jump stop :: code)) (hagain : p.target again + 1 = start)
    (hbody : ∀ g : Frame, g.Ready P host depth → g.pc = start → (body g.state).Reached host p none g g mid)
    (hstays : ∀ m, Within P host depth m → (body m).Stays P host none m) (rest : List Value.Entry) :
    ∀ (l : Loop) (e : Value.Entry) (m : State), l.rest = rest →
      Frame.Ready P host depth { f with loops := l :: f.loops, state := m } →
      (turns body l e rest m).Reached host p none { f with pc := start, loops := l :: f.loops, state := l.bind e m } f
        (p.target stop + 1) := by
  -- a turn leads to its end
  have hturn (l : Loop) (e : Value.Entry) (m : State) (next : State → Flow)
      (hf : Frame.Ready P host depth { f with loops := l :: f.loops, state := m })
      (hnext : ∀ m₁, Frame.Ready P host depth { f with pc := mid, loops := l :: f.loops, state := m₁ } →
        (next m₁).Reached host p none
          (advanceLoop p (nextInstr again) l f.loops { f with pc := mid, loops := l :: f.loops, state := m₁ }) f
          (p.target stop + 1)) :
      ((body (l.bind e m)).andThen fun m => if m.shared.session.canceled then .canceled else next m).Reached host p none
        { f with pc := start, loops := l :: f.loops, state := l.bind e m } f (p.target stop + 1) := by
    have hstart := hf.stays (stays_bind l e m) start
    refine (hbody _ hstart rfl).andThen_none fun m₁ hm₁ => ?_
    have hback := hstays _ hstart.within
    rw [hm₁] at hback
    have hend := hstart.stays hback mid
    exact reached_next hrun hend.within rfl hcode (hnext m₁ hend)
  induction rest with
  | nil =>
    intro l e m hl hf
    refine hturn l e m .done hf fun m₁ hf₁ => ?_
    simp only [advanceLoop, hl]
    exact leads_jump (f := { f with pc := mid + 1, state := m₁ }) hrun hf₁.within hcode.tail
  | cons e' rest ih =>
    intro l e m hl hf
    refine hturn l e m (turns body { l with rest, index := l.index + 1 } e' rest) hf fun m₁ hf₁ => ?_
    simp only [advanceLoop, hl, nextInstr, hagain]
    refine ih { l with rest, index := l.index + 1 } e' m₁ rfl ⟨hf₁.within, fun l' hl' => ?_⟩
    rcases List.mem_cons.mp hl' with rfl | hl'
    · exact hf₁.level_le l List.mem_cons_self
    · exact hf₁.level_le l' (List.mem_cons_of_mem l hl')

/-- Wherever their code stands, a run of it comes to what the statements do. -/
def RunsAs (P : Program → Prop) (host : Host) (depth : Nat) (run : Program → State → Outcome) (p : Program)
    (stop? : Option Int) (ss : List Statement) : Prop :=
  ∀ f : Frame, CodeAt p f.pc (codeAll ss) → f.Ready P host depth →
    (performAll host run ss f.state).Reached host p stop? f f (f.pc + (codeAll ss).length)

theorem reached_scope (hrun : Answers P host depth run) {opening closing : Instr} {body : List Statement}
    (hwell : WellFormed none (.scope opening body closing)) (hbody : RunsAs P host depth run p none body)
    (hcode : CodeAt p f.pc (code (.scope opening body closing))) (hf : f.Ready P host depth) :
    (perform host run (.scope opening body closing) f.state).Reached host p none f f
      (f.pc + (code (.scope opening body closing)).length) := by
  obtain ⟨hopen, hclose, -, hwell⟩ := hwell
  have hinner := hf.enter { isComponent := opening.mode = .component } (f.pc + 1) (f.opened + 1)
  have henter : Leads host p f _ := leads_of_step hrun hf.within hcode.head (by simp only [step, hopen]; rfl)
  rw [perform]
  refine ((hbody _ hcode.tail.left hinner).andThen_none fun m₁ hdone => ?_).before henter
  have hstays : Flow.Stays P host none _ (.done m₁) := hdone ▸ stays_performAll hrun body _ none hwell hinner.within
  have houter : m₁.outer.length = f.state.outer.length + 1 := hstays.outer
  have hlength : f.pc + (code (.scope opening body closing)).length = f.pc + 1 + (codeAll body).length + 1 := by
    simp only [code, List.length_cons, List.length_append, List.length_nil]
    omega
  have hcame := came_close (f := { f with pc := f.pc + 1 + (codeAll body).length, opened := f.opened + 1, state := m₁ })
    host run hclose p rfl
  rw [houter, hf.map_detach] at hcame
  rw [hlength]
  have hm₁ := (hinner.stays hstays (f.pc + 1 + (codeAll body).length)).within
  exact (hcame.reached hrun hm₁ hcode.tail.right.head none).base

theorem reached_region (hrun : Answers P host depth run) (hnodup : (marked p.instrs).Nodup) {stop : Int}
    {body : List Statement} (hwell : AllWellFormed (some stop) body) (hbody : RunsAs P host depth run p (some stop) body)
    (hcode : CodeAt p f.pc (code (.region stop body))) (hf : f.Ready P host depth) :
    (perform host run (.region stop body) f.state).Reached host p none f f
      (f.pc + (code (.region stop body)).length) := by
  have hstop : p.target stop = f.pc + (codeAll body).length := hcode.right.target hnodup
  have hlength : f.pc + (code (.region stop body)).length = f.pc + (codeAll body).length + 1 := by
    simp only [code, List.length_append, List.length_cons, List.length_nil]
    omega
  have hreached := hbody f hcode.left hf
  have hstays := stays_performAll hrun body f.state (some stop) hwell hf.within
  rw [perform, hlength]
  cases hflow : performAll host run body f.state <;> rw [hflow] at hreached hstays
  case done m => exact hreached.trans (leads_mark hrun (hf.within.stays hstays) hcode.right)
  case left m =>
    obtain ⟨l, hl, hleads⟩ := hreached
    cases hl
    rwa [hstop] at hleads
  case failed i e => exact hreached
  case canceled => exact hreached

/-- An instruction that fails at its place. -/
theorem reached_failed (hrun : Answers P host depth run) (hf : f.Ready P host depth) {i : Instr} {e : Failure}
    (hi : p.instrs[f.pc]? = some i) (hs : step host run p i f = .stop (.instruction p.name f.pc i e) f)
    {stop? : Option Int} {after : Nat} : (Flow.failed i e).Reached host p stop? f f after :=
  ⟨f.pc, f.abandon, ends_of_step hrun hf.within hi hs⟩

theorem reached_branch (hrun : Answers P host depth run) (hnodup : (marked p.instrs).Nodup) {stop? : Option Int}
    {test : Bytes} {next : Int} {leave : Option Int} {body : List Statement}
    (hwell : WellFormed stop? (.branch test next leave body)) (hbody : RunsAs P host depth run p none body)
    (hcode : CodeAt p f.pc (code (.branch test next leave body))) (hf : f.Ready P host depth) :
    (perform host run (.branch test next leave body) f.state).Reached host p stop? f f
      (f.pc + (code (.branch test next leave body)).length) := by
  obtain ⟨hleave, hwell⟩ := hwell
  have hnext := hcode.tail.right.right.target hnodup
  have hlength : f.pc + (code (.branch test next leave body)).length = p.target next + 1 := by
    simp only [hnext, code, List.length_cons, List.length_append, List.length_nil]
    omega
  rw [perform, hlength]
  cases hv : f.state.eval host test with
  | error e => exact reached_failed hrun hf hcode.head (by simp only [step, Instr.jumpIfNot, hv])
  | ok v =>
    simp only
    have hs : step host run p (.jumpIfNot test next) f =
        if v.truthy then .next { f with pc := f.pc + 1 } else .next { f with pc := p.target next + 1 } := by
      simp only [step, Instr.jumpIfNot, hv]
    split <;> rename_i htruthy <;> simp only [htruthy, if_true] at hs
    · have hinner : Frame.Ready P host depth { f with pc := f.pc + 1 } := ⟨hf.within, hf.level_le⟩
      refine ((hbody _ hcode.tail.left hinner).andThen_none fun m₁ hm₁ => ?_).before
        (leads_of_step hrun hf.within hcode.head hs)
      have hstays : Flow.Stays P host none _ (.done m₁) := hm₁ ▸ stays_performAll hrun body _ none hwell hf.within
      have hm := hf.within.stays hstays
      have hend := hcode.tail.right
      cases leave with
      | none =>
        rw [hnext]
        exact leads_mark (f := { f with pc := f.pc + 1 + (codeAll body).length, state := m₁ }) hrun hm hend
      | some l =>
        refine ⟨l, (hleave.resolve_left (Option.some_ne_none l)).symm, ?_⟩
        exact leads_jump (f := { f with pc := f.pc + 1 + (codeAll body).length, state := m₁ }) hrun hm hend
    · exact leads_of_step hrun hf.within hcode.head hs

theorem reached_loop (hrun : Answers P host depth run) (hnodup : (marked p.instrs).Nodup) {items item key : Bytes}
    {again empty stop : Int} {body otherwise : List Statement}
    (hwell : WellFormed none (.loop items item key again empty stop body otherwise))
    (hbody : RunsAs P host depth run p none body) (hother : RunsAs P host depth run p none otherwise)
    (hcode : CodeAt p f.pc (code (.loop items item key again empty stop body otherwise))) (hf : f.Ready P host depth) :
    (perform host run (.loop items item key again empty stop body otherwise) f.state).Reached host p none f f
      (f.pc + (code (.loop items item key again empty stop body otherwise)).length) := by
  have hagain : p.target again = f.pc + 1 := hcode.tail.target hnodup
  have hend := hcode.tail.tail.right
  have hempty := hend.tail.tail.target hnodup
  have hstop := hend.tail.tail.tail.right.target hnodup
  have hlength : f.pc + (code (.loop items item key again empty stop body otherwise)).length = p.target stop + 1 := by
    simp only [hstop, code, List.length_cons, List.length_append, List.length_nil]
    omega
  rw [perform, hlength]
  cases hv : f.state.eval host items with
  | error e => exact reached_failed hrun hf hcode.head (by simp only [step, rangeInstr, hv])
  | ok v =>
    simp only
    cases hentries : v.entries? with
    | none => exact reached_failed hrun hf hcode.head (by simp only [step, rangeInstr, hv, hentries])
    | some entries =>
      have hs : step host run p (rangeInstr items item key empty) f =
          .next (startLoop p (rangeInstr items item key empty) entries f) := by
        simp only [step, rangeInstr, hv, hentries]
      refine Flow.Reached.before (leads_of_step hrun hf.within hcode.head hs) ?_
      cases entries with
      | nil =>
        have hotherwise : CodeAt p (p.target empty + 1) (codeAll otherwise ++ [.mark stop]) := hempty ▸ hend.tail.tail.tail
        have hreached := hother { f with pc := p.target empty + 1 } hotherwise.left ⟨hf.within, hf.level_le⟩
        refine hreached.base.onward fun m hm => ?_
        have hstays : Flow.Stays P host none _ (.done m) := hm ▸ stays_performAll hrun otherwise _ none hwell.2 hf.within
        rw [hstop, ← hempty]
        exact leads_mark (f := { f with pc := p.target empty + 1 + (codeAll otherwise).length, state := m }) hrun
          (hf.within.stays hstays) hotherwise.right
      | cons e rest =>
        let l : Loop :=
          { rest, index := 0, length := rest.length + 1, level := some f.state.outer.length, item, key }
        have hready : Frame.Ready P host depth { f with loops := l :: f.loops } := by
          refine ⟨hf.within, fun l' hl' => ?_⟩
          rcases List.mem_cons.mp hl' with rfl | hl'
          · exact fun level hlevel => Nat.le_of_eq (Option.some.inj hlevel).symm
          · exact hf.level_le l' hl'
        have hturns := reached_turns (f := f) hrun hend (congrArg (· + 1) hagain)
          (fun g hg hpc => by simpa only [hpc] using hbody g (hpc ▸ hcode.tail.tail.left) hg)
          (fun m hm => stays_performAll hrun body m none hwell.1 hm) rest l e f.state rfl hready
        have hbound : Within P host depth (l.bind e f.state) := hf.within.stays (stays_bind l e f.state)
        exact hturns.before (leads_mark (f := { f with pc := f.pc + 1, loops := l :: f.loops, state := l.bind e f.state })
          hrun hbound hcode.tail)

mutual

theorem reached_perform (hrun : Answers P host depth run) (hnodup : (marked p.instrs).Nodup) (stop? : Option Int) :
    ∀ (s : Statement) (f : Frame), WellFormed stop? s → CodeAt p f.pc (code s) → f.Ready P host depth →
      (perform host run s f.state).Reached host p stop? f f (f.pc + (code s).length)
  | .plain i, f, h, hcode, hf => by
    simp only [WellFormed] at h
    exact (came_act host run h p f).reached hrun hf.within hcode.head stop?
  | .scope opening body closing, f, h, hcode, hf =>
    (reached_scope hrun h (reached_performAll hrun hnodup none body h.2.2.2) hcode hf).widen
  | .region stop body, f, h, hcode, hf => by
    simp only [WellFormed] at h
    exact (reached_region hrun hnodup h (reached_performAll hrun hnodup (some stop) body h) hcode hf).widen
  | .branch test next leave body, f, h, hcode, hf =>
    reached_branch hrun hnodup h (reached_performAll hrun hnodup none body h.2) hcode hf
  | .loop items item key again empty stop body otherwise, f, h, hcode, hf =>
    (reached_loop hrun hnodup h (reached_performAll hrun hnodup none body h.1)
      (reached_performAll hrun hnodup none otherwise h.2) hcode hf).widen

/-- A run of the code of statements comes to what the statements do. -/
theorem reached_performAll (hrun : Answers P host depth run) (hnodup : (marked p.instrs).Nodup) (stop? : Option Int) :
    ∀ ss : List Statement, AllWellFormed stop? ss → RunsAs P host depth run p stop? ss
  | [], _ => fun f _ _ => Leads.refl f
  | s :: ss, h => fun f hcode hf => by
    rw [performAll]
    refine (reached_perform hrun hnodup stop? s f h.1 hcode.left hf).andThen fun m hm => ?_
    have hstays := stays_perform hrun s f.state stop? h.1 hf.within
    rw [hm] at hstays
    rw [codeAll_cons, List.length_append, ← Nat.add_assoc]
    exact (reached_performAll hrun hnodup stop? ss h.2 _ hcode.right (hf.stays hstays _)).base

end

end

/-! ### Ends of runs -/

section
variable {P : Program → Prop} {host : Host}

/-- What a whole run that succeeds leaves as it was. -/
theorem stays_of_ends {p : Program} {m m' : State} (h : Ends host p { state := m } (.ok (), m')) : Stays P host m m' := by
  obtain ⟨n, hn⟩ := exec_of_ends h
  have hexec := hn n (Nat.le_refl n)
  obtain ⟨hacts, houter, -⟩ := acts_exec host n p _ m' (Nat.zero_le _) hexec
  have hdepth := depth_exec host n p { state := m }
  rw [hexec] at hdepth
  exact ⟨houter, hdepth, fun hm => hm.acts hacts⟩

/-- What runs come to can be asked for when they all end. -/
theorem exists_answers {depth : Nat} (h : ∀ q m, P q → Within P host (depth + 1) m → depth < host.maxDepth →
    ∃ o, Ends host q { state := m } o) : ∃ run, Answers P host depth run := by
  classical
  refine ⟨fun q m => if h : ∃ o, Ends host q { state := m } o then h.choose else (.ok (), m), ?_, ?_⟩
  · intro q m hq hm hlt
    have hends := h q m hq hm hlt
    simp only [hends, dif_pos]
    exact hends.choose_spec
  · intro q m m' hq hm hlt hrun
    have hends := h q m hq hm hlt
    simp only [hends, dif_pos] at hrun
    exact stays_of_ends (hrun ▸ hends.choose_spec)

/-- The state that statements leave a whole program in, when they succeed. -/
def Flow.result? : Flow → Option State
  | .done m => some m.resolve
  | .left _ | .failed _ _ | .canceled => none

/-- A program of statements comes to the end that they come to, when the templates inside come to an end. -/
theorem exists_ends_performAll {depth : Nat} {run : Program → State → Outcome} (hrun : Answers P host depth run)
    {p : Program} {ss : List Statement} (hcode : p.instrs = codeAll ss) (hwell : Statement.AllWellFormed none ss)
    (hnodup : (Program.marked p.instrs).Nodup) {m : State} (hm : Within P host depth m) :
    ∃ o, Ends host p { state := m } o ∧ o.settled.toOption = (performAll host run ss m).result? := by
  have hcodeAt : CodeAt p 0 (codeAll ss) := hcode ▸ CodeAt.whole p
  have hreached := reached_performAll hrun hnodup none ss hwell { state := m } hcodeAt ⟨hm, nofun⟩
  cases hflow : performAll host run ss m <;> rw [hflow] at hreached
  case done m' =>
    exact ⟨_, hreached _ (.finish (by simp [hcode])), rfl⟩
  case left m' =>
    obtain ⟨stop, hstop, -⟩ := hreached
    cases hstop
  case failed i e =>
    obtain ⟨pc, m', hends⟩ := hreached
    exact ⟨_, hends, rfl⟩
  case canceled =>
    obtain ⟨m', hends⟩ := hreached
    exact ⟨_, hends, rfl⟩

theorem exists_ends_of_answers {depth : Nat} {run : Program → State → Outcome} (hrun : Answers P host depth run)
    {p : Program} (hp : p.IsCode) {m : State} (hm : Within P host depth m) : ∃ o, Ends host p { state := m } o := by
  obtain ⟨ss, hcode, hwell, hnodup⟩ := hp
  obtain ⟨o, hends, -⟩ := exists_ends_performAll hrun hcode hwell hnodup hm
  exact ⟨o, hends⟩

/-- Every run comes to an end, however the templates render one another. -/
theorem exists_ends (hP : ∀ q, P q → q.IsCode) {p : Program} (hp : P p) {m : State} (hm : Runs P host m) :
    ∃ o, Ends host p { state := m } o := by
  -- as many templates as are left may still be rendered inside one another
  suffices h : ∀ (left depth : Nat), host.maxDepth ≤ depth + left → ∀ p m, P p → Within P host depth m →
      ∃ o, Ends host p { state := m } o from
    h (host.maxDepth.toNat) m.shared.depth (by omega) p m hp ⟨hm, rfl⟩
  intro left
  induction left with
  | zero =>
    intro depth hle p m hp hm
    obtain ⟨run, hrun⟩ : ∃ run, Answers P host depth run := exists_answers fun q m _ _ hlt => by omega
    exact exists_ends_of_answers hrun (hP p hp) hm
  | succ left ih =>
    intro depth hle p m hp hm
    obtain ⟨run, hrun⟩ : ∃ run, Answers P host depth run :=
      exists_answers fun q m hq hm _ => ih (depth + 1) (by omega) q m hq hm
    exact exists_ends_of_answers hrun (hP p hp) hm

theorem exists_answers_of_isCode (hP : ∀ q, P q → q.IsCode) {depth : Nat} : ∃ run, Answers P host depth run :=
  exists_answers fun _ _ hq hm _ => exists_ends hP hq hm.runs

end

end Stencil.Render
