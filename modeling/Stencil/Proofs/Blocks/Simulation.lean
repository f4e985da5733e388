import Stencil.Proofs.Blocks.Code
import Stencil.Proofs.Blocks.View

/-! # Statements of templates do what the templates mean

What the statements of a tree do in a state is what the interpretation of the tree says of the view of the state
(`simulates_statementsAll`), when the templates that components render do (`Setting`). -/

namespace Stencil.Blocks

open Stencil.Control (Evaluation rawArg nameArg labels labelsAll subjectName turn)
open Stencil.Directive.Standard
open Stencil.Markup (Node Tag)
open Stencil.Render (State Host Evaluator Flow Loop perform performAll act closeScope renderTemplate componentVars
  templateVars)

/-- Nothing is cancelled, so many templates are rendered inside one another, and the programs that are kept are those
of their paths. -/
structure Serving (kept : Bytes → Program → Prop) (depth : Nat) (m : State) : Prop where
  running : m.shared.session.canceled = false
  depth : m.shared.depth = depth
  kept : ∀ entry ∈ m.shared.session.loader.programs, kept entry.1 entry.2

theorem Serving.congr {kept : Bytes → Program → Prop} {depth : Nat} {m m' : State} (h : Serving kept depth m)
    (hsession : m'.shared.session = m.shared.session) (hdepth : m'.shared.depth = m.shared.depth) :
    Serving kept depth m' :=
  ⟨hsession ▸ h.running, hdepth ▸ h.depth, hsession ▸ h.kept⟩

/-- The cause of a failure, through the instructions that render one template inside another. -/
inductive Caused (e : Failure) : Failure → Prop
  | itself : Caused e e
  | inside {name : Bytes} {pc : Nat} {i : Instr} {e' : Failure} (h : Caused e e') : Caused e (.instruction name pc i e')

/-- A flow comes to what a result says of a view, and ends in a good state. -/
def Agrees (good : State → Prop) (v : View) (flow : Flow) : Result → Prop
  | .ok (w, out) => ∃ m, flow = .done m ∧ good m ∧ view m = v.update w out
  | .error e => ∃ i e', flow = .failed i e' ∧ Caused e e'

/-- The end of a region. -/
def settle : Flow → Flow
  | .left m => .done m
  | flow => flow

section
variable {good : State → Prop} {v : View} {flow : Flow} {r : Result}

theorem Agrees.append {next : State → Flow} {f : World → Result} (h : Agrees good v flow r)
    (hnext : ∀ m w out, good m → view m = v.update w out → Agrees good (view m) (next m) (f w)) :
    Agrees good v (flow.andThen next) (r.append f) := by
  rcases r with e | ⟨w, out⟩
  · obtain ⟨i, e', rfl, hcaused⟩ := h
    exact ⟨i, e', rfl, hcaused⟩
  · obtain ⟨m, rfl, hm, hview⟩ := h
    have hrest := hnext m w out hm hview
    simp only [Result.append, Flow.andThen]
    rcases hf : f w with e | ⟨w', out'⟩ <;> rw [hf] at hrest
    · exact hrest
    · obtain ⟨m', hdone, hm', hview'⟩ := hrest
      exact ⟨m', hdone, hm', by rw [hview', hview, View.update_update]⟩

/-- What only prepares the state writes nothing. -/
theorem Agrees.of_update {w : World} (h : Agrees good (v.update w []) flow r) : Agrees good v flow r := by
  rcases r with e | ⟨w', out⟩
  · exact h
  · obtain ⟨m, hdone, hm, hview⟩ := h
    exact ⟨m, hdone, hm, by rw [hview, View.update_update, List.nil_append]⟩

theorem Agrees.map {v' : View} {next : State → Flow} {f : World × Bytes → World × Bytes} (h : Agrees good v flow r)
    (hnext : ∀ m w out, good m → view m = v.update w out →
      ∃ m', next m = .done m' ∧ good m' ∧ view m' = v'.update (f (w, out)).1 (f (w, out)).2) :
    Agrees good v' (flow.andThen next) (r.map f) := by
  rcases r with e | ⟨w, out⟩
  · obtain ⟨i, e', rfl, hcaused⟩ := h
    exact ⟨i, e', rfl, hcaused⟩
  · obtain ⟨m, rfl, hm, hview⟩ := h
    exact hnext m w out hm hview

end

/-- What statements are run with: the evaluator of the interpretation, and templates that do what it says of
components, at some paths. -/
structure Setting (host : Host) (run : Program → State → Render.Outcome) (evaluate : Evaluator) (component : Component)
    (pages : Bytes → Prop) (kept : Bytes → Program → Prop) (depth : Nat) : Prop where
  evaluator : host.evaluator = some evaluate
  renders : ∀ i path vars m outer w, pages path → Serving kept depth m → (view m).Shows outer w →
    Agrees (Serving kept depth) (view m) (.of i (renderTemplate host run path vars m).settled)
      (inScope outer vars (component path) w)

section
variable {host : Host} {run : Program → State → Render.Outcome} {evaluate : Evaluator} {component : Component}
  {pages : Bytes → Prop} {kept : Bytes → Program → Prop} {depth : Nat}

variable (host run kept depth) in
/-- Statements do what an interpretation says, in all scopes. -/
def Simulates (ss : List Statement) (f : List Bindings → World → Result) : Prop :=
  ∀ m outer w, Serving kept depth m → (view m).Shows outer w →
    Agrees (Serving kept depth) (view m) (performAll host run ss m) (f outer w)

theorem simulates_nil : Simulates host run kept depth [] fun _ w => .ok (w, []) :=
  fun m _ _ hm h => ⟨m, rfl, hm, h.same.symm⟩

theorem Simulates.append {a b : List Statement} {f g : List Bindings → World → Result}
    (ha : Simulates host run kept depth a f) (hb : Simulates host run kept depth b g) :
    Simulates host run kept depth (a ++ b) fun outer w => (f outer w).append (g outer) := by
  intro m outer w hm h
  rw [Render.performAll_append]
  refine (ha m outer w hm h).append fun m₁ w₁ out hm₁ hview => ?_
  exact hb m₁ outer w₁ hm₁ (hview ▸ h.update w₁ out)

/-- Goes on after a change of the state that the interpretation makes too. -/
theorem Simulates.after {ss : List Statement} {f : List Bindings → World → Result} (hss : Simulates host run kept depth ss f)
    {m m' : State} {outer : List Bindings} {w w' : World} (h : (view m).Shows outer w) (hm' : Serving kept depth m')
    (hview : view m' = (view m).update w' []) :
    Agrees (Serving kept depth) (view m) (performAll host run ss m') (f outer w') := by
  have hagrees := hss m' outer w' hm' (hview ▸ h.update w' [])
  rw [hview] at hagrees
  exact hagrees.of_update

section Values
variable (hset : Setting host run evaluate component pages kept depth)
include hset

theorem agrees_value {m : State} {outer : List Bindings} {w : World} (hm : Serving kept depth m)
    (h : (view m).Shows outer w) {v : View} (i : Instr) (expr : Bytes) {next : Value → Flow} {use : Value → Result}
    (huse : ∀ x, Agrees (Serving kept depth) v (next x) (use x)) :
    Agrees (Serving kept depth) v
      (match m.eval host expr with
        | .error e => .failed i e
        | .ok x => next x) (withValue (evaluate false) outer expr w use) := by
  rw [eval_eq h hset.evaluator hm.running, withValue]
  cases evaluate false expr (Control.lookup (w.vars :: outer)) with
  | error e => exact ⟨i, e, rfl, .itself⟩
  | ok x => exact huse x

theorem simulates_set {ss : List Statement} {f : List Bindings → World → Result} (hss : Simulates host run kept depth ss f)
    (name expr : Bytes) :
    Simulates host run kept depth (.plain (.set name expr) :: ss) fun outer w =>
      withValue (evaluate false) outer expr w fun x => f outer { w with vars := Assoc.insert name x w.vars } := by
  intro m outer w hm h
  have hflow : performAll host run (.plain (.set name expr) :: ss) m =
      match m.eval host expr with
      | .error e => .failed (.set name expr) e
      | .ok x => performAll host run ss (m.set name x) := by
    simp only [performAll, perform, act, Instr.set]
    cases m.eval host expr <;> rfl
  rw [hflow]
  exact agrees_value hset hm h _ _ fun x => hss.after h (hm.congr rfl rfl) (view_set h name x)

theorem simulates_emit (expr : Bytes) (escaped : Bool) :
    Simulates host run kept depth [.plain (.emit expr escaped)] fun outer w =>
      withValue (evaluate false) outer expr w fun x =>
        .ok (w, if escaped then Text.escapeHtml x.rendered else x.rendered) := by
  intro m outer w hm h
  have hflow : performAll host run [.plain (.emit expr escaped)] m =
      match m.eval host expr with
      | .error e => .failed (.emit expr escaped) e
      | .ok x => .done (m.write (if escaped then Text.escapeHtml x.rendered else x.rendered)) := by
    simp only [performAll, perform, act, Instr.emit]
    cases m.eval host expr with
    | error e => rfl
    | ok x => cases escaped <;> rfl
  rw [hflow]
  exact agrees_value hset hm h _ _ fun x => ⟨_, rfl, hm.congr rfl rfl, view_write h _⟩

theorem agrees_bindings {m : State} {outer : List Bindings} {w : World} (hm : Serving kept depth m)
    (h : (view m).Shows outer w) {v : View} (i : Instr) (expr : Bytes) {next : Bindings → Flow} {use : Bindings → Result}
    (huse : ∀ bindings, Agrees (Serving kept depth) v (next bindings) (use bindings)) :
    Agrees (Serving kept depth) v
      (match m.evalBindings host expr with
        | .error e => .failed i e
        | .ok bindings => next bindings) (withBindings (evaluate false) outer expr w use) := by
  rw [State.evalBindings, eval_eq h hset.evaluator hm.running, withBindings, withValue]
  cases evaluate false expr (Control.lookup (w.vars :: outer)) with
  | error e => exact ⟨i, e, rfl, .itself⟩
  | ok x =>
    dsimp only
    cases x.bindings? with
    | none => exact ⟨i, _, rfl, .itself⟩
    | some bindings => exact huse bindings

theorem agrees_argument {m : State} {outer : List Bindings} {w : World} (hm : Serving kept depth m)
    (h : (view m).Shows outer w) {v : View} (i : Instr) {next : Bindings → Flow} {use : Bindings → Result}
    (huse : ∀ bindings, Agrees (Serving kept depth) v (next bindings) (use bindings)) :
    Agrees (Serving kept depth) v
      (match templateVars host i m with
        | .error e => .failed i e
        | .ok bindings => next bindings) (withArgument (evaluate false) outer i.expr w use) := by
  by_cases hexpr : i.expr = []
  · simp only [templateVars, withArgument, if_pos hexpr]
    exact huse []
  · simp only [templateVars, withArgument, if_neg hexpr]
    exact agrees_bindings hset hm h i i.expr huse

theorem simulates_bind {ss : List Statement} {f : List Bindings → World → Result} (hss : Simulates host run kept depth ss f)
    (expr : Bytes) :
    Simulates host run kept depth ((if expr = [] then [] else [.plain (.bind expr)]) ++ ss) fun outer w =>
      withArgument (evaluate false) outer expr w fun bindings =>
        f outer { w with vars := Assoc.insertAll w.vars bindings } := by
  intro m outer w hm h
  unfold withArgument
  split
  · exact hss m outer w hm h
  · have hflow : performAll host run ([.plain (.bind expr)] ++ ss) m =
        match m.evalBindings host expr with
        | .error e => .failed (.bind expr) e
        | .ok bindings => performAll host run ss (m.setAll bindings) := by
      simp only [List.cons_append, List.nil_append, performAll, perform, act, Instr.bind]
      cases m.evalBindings host expr <;> rfl
    rw [hflow]
    exact agrees_bindings hset hm h _ _ fun bindings => hss.after h (hm.congr rfl rfl) (view_setAll h bindings)

end Values

theorem simulates_text (value : Bytes) (span : Markup.Span) (n : Nat) :
    Simulates host run kept depth (statements n (.text value span)) fun _ w => .ok (w, value) := by
  rw [statements]
  split
  · rename_i hvalue
    rw [hvalue]
    exact simulates_nil
  · intro m outer w hm h
    exact ⟨m.write value, rfl, hm.congr rfl rfl, view_write h value⟩

/-! ### Scopes -/

section Scopes
variable {body : List Statement} {f : List Bindings → World → Result} (hbody : Simulates host run kept depth body f)
include hbody

/-- A scope whose output is disposed of at its end. -/
theorem simulates_scope (closing : Instr) (put : Bytes → State → State) (keep : World → Bytes → World × Bytes)
    (hclose : ∀ m, closeScope host run closing m = (.ok (), put m.top.out m.leave))
    (hserving : ∀ out m, Serving kept depth m → Serving kept depth (put out m))
    (hput : ∀ out m outer w, (view m).Shows outer w → view (put out m) = (view m).update (keep w out).1 (keep w out).2) :
    Simulates host run kept depth [.scope .enter body closing] fun outer w =>
      (inScope outer [] f w).map fun (w, out) => keep w out := by
  intro m outer w hm h
  dsimp only
  have hinner := hbody (m.enter {}) (w.vars :: outer) { w with vars := [] } (hm.congr rfl rfl)
    (view_enter m [] false ▸ h.enter [])
  rw [view_enter m [] false] at hinner
  have hflow : performAll host run [.scope .enter body closing] m =
      (performAll host run body (m.enter {})).andThen fun m => .done (put m.top.out m.leave) := by
    simp only [Render.performAll_singleton, perform, hclose]
    rfl
  have hresult : ((inScope outer [] f w).map fun (w, out) => keep w out) =
      (f (w.vars :: outer) { w with vars := [] }).map fun (w', out) => keep { w' with vars := w.vars } out := by
    unfold inScope
    cases f (w.vars :: outer) { w with vars := [] } <;> rfl
  rw [hflow, hresult]
  refine hinner.map fun m₁ w₁ out hm₁ hview => ⟨_, rfl, hserving _ _ (hm₁.congr (by simp) (by simp)), ?_⟩
  have hout : m₁.top.out = out := congrArg (·.top.out) hview
  have hleave : view m₁.leave = (view m).update { w₁ with vars := w.vars } [] := by rw [view_leave, hview, h.leave]
  rw [hput _ _ outer { w₁ with vars := w.vars } (hleave ▸ h.update _ _), hleave, View.update_update, List.nil_append, hout]

theorem simulates_merge : Simulates host run kept depth [.scope .enter body (.exit .merge [])] fun outer w =>
    inScope outer [] f w := by
  have hscope := simulates_scope hbody (.exit .merge []) (fun out m => m.write out) (fun w out => (w, out))
    (fun _ => rfl) (fun _ _ hm => hm.congr rfl rfl) fun out _ _ _ h => view_write h out
  intro m outer w hm h
  have hmap : ((inScope outer [] f w).map fun (w, out) => (w, out)) = inScope outer [] f w := by
    cases inScope outer [] f w <;> rfl
  dsimp only
  rw [← hmap]
  exact hscope m outer w hm h

theorem simulates_capture (closing : Instr) (put : Bytes → State → State) (keep : World → Bytes → World)
    (hclose : ∀ m, closeScope host run closing m = (.ok (), put m.top.out m.leave))
    (hserving : ∀ out m, Serving kept depth m → Serving kept depth (put out m))
    (hput : ∀ out m outer w, (view m).Shows outer w → view (put out m) = (view m).update (keep w out) []) :
    Simulates host run kept depth [.scope .enter body closing] fun outer w => capture outer f keep w :=
  simulates_scope hbody closing put (fun w out => (keep w out, [])) hclose hserving hput

theorem simulates_section (name : Bytes) : Simulates host run kept depth [.scope .enter body (.exit .define name)]
    fun outer w => capture outer f (fun w => w.define name) w :=
  simulates_capture hbody _ (fun out m => { m with shared := m.shared.define name out }) _ (fun _ => rfl)
    (fun _ _ hm => hm.congr rfl rfl) fun out _ _ _ h => view_define h name out

theorem simulates_push (name : Bytes) : Simulates host run kept depth [.scope .enter body (.exit .push name)]
    fun outer w => capture outer f (fun w => w.push name) w :=
  simulates_capture hbody _ (fun out m => { m with shared := m.shared.push name out }) _ (fun _ => rfl)
    (fun _ _ hm => hm.congr rfl rfl) fun out _ _ _ h => view_push h name out

theorem simulates_slot (name : Bytes) : Simulates host run kept depth [.scope .enter body (.exit .slot name)]
    fun outer w => capture outer f (fun w => w.setSlot name) w :=
  simulates_capture hbody _ (fun out m => m.setSlot name out) _ (fun _ => rfl)
    (fun _ _ hm => hm.congr (by simp) (by simp)) fun out _ _ _ h => view_capture h name out

/-- A component: what the body leaves is given to its template. -/
theorem simulates_component (hset : Setting host run evaluate component pages kept depth) {path : Bytes}
    (hpath : pages path) (props : Bytes) :
    Simulates host run kept depth [.scope .enterComponent body (renderInstr path props)] fun outer w =>
      interpretComponent (evaluate false) component path props outer f w := by
  intro m outer w hm h
  have hinner := hbody (m.enter { isComponent := true }) (w.vars :: outer) { w with vars := [], slots := [] }
    (hm.congr rfl rfl) (view_enter m [] true ▸ h.enterComponent [])
  rw [view_enter m [] true] at hinner
  have hflow : performAll host run [.scope .enterComponent body (renderInstr path props)] m =
      (performAll host run body (m.enter { isComponent := true })).andThen fun m =>
        .of (renderInstr path props) (closeScope host run (renderInstr path props) m).settled := by
    rw [Render.performAll_singleton, perform]
    rfl
  dsimp only
  unfold interpretComponent
  rw [hflow]
  rcases hf : f (w.vars :: outer) { w with vars := [], slots := [] } with e | ⟨after, out⟩ <;> rw [hf] at hinner
  · obtain ⟨i, e', hfailed, hcaused⟩ := hinner
    rw [hfailed]
    exact ⟨i, e', rfl, hcaused⟩
  · obtain ⟨m₁, hdone, hm₁, hview⟩ := hinner
    rw [hdone, Flow.andThen]
    have hshows : (view m₁).Shows (w.vars :: outer) after := hview ▸ (h.enterComponent []).update after out
    have hout : m₁.top.out = out := congrArg (·.top.out) hview
    -- the scope of the body is a component's, so its slots are the nearest ones
    have hslots : m₁.top.slots = after.slots := by
      have hbodies : bodies m₁.scopes = after.slots :: (view m).slots := congrArg (·.slots) hview
      have htop : m₁.top.isComponent = true := congrArg (·.top.isComponent) hview
      simp only [bodies, State.scopes, List.filter_cons, htop, if_true, List.map_cons] at hbodies
      exact (List.cons.inj hbodies).1
    have hleave : view m₁.leave = (view m).update { after with vars := w.vars, slots := w.slots } [] := by
      rw [view_leave, hview, h.leaveComponent]
    have hclose : Flow.of (renderInstr path props) (closeScope host run (renderInstr path props) m₁).settled =
        match templateVars host (renderInstr path props) m₁ with
        | .error e => .failed (renderInstr path props) e
        | .ok bindings => .of (renderInstr path props)
            (renderTemplate host run path (given bindings out after.slots) m₁.leave).settled := by
      rw [closeScope]
      simp only [renderInstr, componentVars, ← hout, ← hslots]
      cases templateVars host { op := .exitScope, mode := .component, name := path, expr := props } m₁ with
      | error e => rfl
      | ok bindings => rfl
    rw [hclose]
    refine agrees_argument hset hm₁ hshows (renderInstr path props) fun bindings => ?_
    have hrenders := hset.renders (renderInstr path props) path (given bindings out after.slots) m₁.leave outer
      { after with vars := w.vars, slots := w.slots } hpath (hm₁.congr (by simp) (by simp)) (hleave ▸ h.update _ _)
    rw [hleave] at hrenders
    exact hrenders.of_update

end Scopes

/-! ### Loops -/

/-- Names are bound in the scope that a loop runs in. -/
theorem bind_eq_setAll {l : Loop} {m : State} (hlevel : l.level = some m.outer.length) (e : Value.Entry) :
    l.bind e m = m.setAll (l.bindings e) := by
  simp only [Loop.bind, hlevel, State.atLevel, Nat.sub_self]
  rfl

section Loops
variable {body otherwise : List Statement} {f g : List Bindings → World → Result}

theorem agrees_turn (hbody : Simulates host run kept depth body f) {l : Loop} {m : State}
    (hlevel : l.level = some m.outer.length) (e : Value.Entry) {outer : List Bindings} {w : World}
    (hm : Serving kept depth m) (h : (view m).Shows outer w) {next : State → Flow} {r : World → Result}
    (hnext : ∀ m₁ w₁, m₁.outer.length = m.outer.length → Serving kept depth m₁ → (view m₁).Shows outer w₁ →
      Agrees (Serving kept depth) (view m₁) (next m₁) (r w₁)) :
    Agrees (Serving kept depth) (view m)
      ((performAll host run body (l.bind e m)).andThen fun m =>
        if m.shared.session.canceled then .canceled else next m)
      ((f outer { w with vars := Assoc.insertAll w.vars (turn l.item l.key l.index l.length e) }).append r) := by
  have hbound : Serving kept depth (m.setAll (l.bindings e)) := hm.congr rfl rfl
  rw [bind_eq_setAll hlevel]
  refine (hbody.after h hbound (view_setAll h (l.bindings e))).append fun m₁ w₁ out hm₁ hview => ?_
  have houter : m₁.outer.length = m.outer.length := by
    have hlength : (view m₁).outer.length = (view m).outer.length := congrArg (·.outer.length) hview
    simpa [view] using hlength
  rw [if_neg (by simp [hm₁.running])]
  exact hnext m₁ w₁ houter hm₁ (hview ▸ h.update w₁ out)

theorem agrees_turns (hbody : Simulates host run kept depth body f) {outer : List Bindings} (rest : List Value.Entry) :
    ∀ (l : Loop) (e : Value.Entry) (m : State) (w : World), l.level = some m.outer.length → Serving kept depth m →
      (view m).Shows outer w → Agrees (Serving kept depth) (view m) (Render.turns (performAll host run body) l e rest m)
        (turns (f outer) l.item l.key l.length l.index (e :: rest) w) := by
  induction rest with
  | nil =>
    intro l e m w hlevel hm h
    exact agrees_turn hbody hlevel e hm h fun m₁ w₁ _ hm₁ h₁ => ⟨m₁, rfl, hm₁, h₁.same.symm⟩
  | cons e' rest ih =>
    intro l e m w hlevel hm h
    exact agrees_turn hbody hlevel e hm h fun m₁ w₁ houter hm₁ h₁ =>
      ih { l with rest, index := l.index + 1 } e' m₁ w₁ (houter ▸ hlevel) hm₁ h₁

theorem simulates_loop (hset : Setting host run evaluate component pages kept depth)
    (hbody : Simulates host run kept depth body f) (hother : Simulates host run kept depth otherwise g)
    (items item key : Bytes) (again empty stop : Int) :
    Simulates host run kept depth [.loop items item key again empty stop body otherwise] fun outer w =>
      withValue (evaluate false) outer items w fun x =>
        match x.entries? with
        | none => .error (Render.loopFailure x)
        | some [] => g outer w
        | some (e :: es) => turns (f outer) item key (es.length + 1) 0 (e :: es) w := by
  intro m outer w hm h
  rw [Render.performAll_singleton, perform]
  refine agrees_value hset hm h _ _ fun x => ?_
  cases x.entries? with
  | none => exact ⟨_, _, rfl, .itself⟩
  | some entries =>
    cases entries with
    | nil => exact hother m outer w hm h
    | cons e rest => exact agrees_turns hbody rest _ e m w rfl hm h

end Loops

/-! ### Branches -/

/-- A flow that does not leave a region is the same at its end. -/
theorem Agrees.settle {good : State → Prop} {v : View} {flow : Flow} {r : Result} (h : Agrees good v flow r) :
    Agrees good v (settle flow) r := by
  rcases r with e | ⟨w, out⟩
  · obtain ⟨i, e', rfl, hcaused⟩ := h
    exact ⟨i, e', rfl, hcaused⟩
  · obtain ⟨m, rfl, hm, hview⟩ := h
    exact ⟨m, rfl, hm, hview⟩

/-- Statements, up to the end of the region they are in, do what an interpretation says. -/
def Settles (host : Host) (run : Program → State → Render.Outcome) (kept : Bytes → Program → Prop) (depth : Nat)
    (ss : List Statement) (f : List Bindings → World → Result) : Prop :=
  ∀ m outer w, Serving kept depth m → (view m).Shows outer w →
    Agrees (Serving kept depth) (view m) (settle (performAll host run ss m)) (f outer w)

section Branches
variable {ss rest : List Statement} {f g : List Bindings → World → Result}

theorem Simulates.settles (h : Simulates host run kept depth ss f) : Settles host run kept depth ss f :=
  fun m outer w hm hw => (h m outer w hm hw).settle

theorem Settles.region (h : Settles host run kept depth ss f) (stop : Int) :
    Simulates host run kept depth [.region stop ss] f := by
  intro m outer w hm hw
  have hflow : performAll host run [.region stop ss] m = settle (performAll host run ss m) := by
    rw [Render.performAll_singleton, perform]
    cases performAll host run ss m <;> rfl
  rw [hflow]
  exact h m outer w hm hw

theorem settles_branch (hset : Setting host run evaluate component pages kept depth)
    (hss : Simulates host run kept depth ss f) (hrest : Settles host run kept depth rest g)
    (test : Bytes) (next : Int) {leave : Option Int} (hleave : leave = none → rest = []) :
    Settles host run kept depth (.branch test next leave ss :: rest) fun outer w =>
      withValue (evaluate false) outer test w fun x => if x.truthy then f outer w else g outer w := by
  intro m outer w hm h
  have hflow : settle (performAll host run (.branch test next leave ss :: rest) m) =
      match m.eval host test with
      | .error e => .failed (.jumpIfNot test next) e
      | .ok x =>
        if x.truthy then settle ((performAll host run ss m).andThen fun m =>
          if leave.isSome then .left m else performAll host run rest m)
        else settle (performAll host run rest m) := by
    rw [performAll, perform]
    cases m.eval host test with
    | error e => rfl
    | ok x =>
      dsimp only
      split
      · rw [Render.Flow.andThen_assoc]
        congr 2
        funext m
        split <;> rfl
      · rfl
  rw [hflow]
  refine agrees_value hset hm h _ _ fun x => ?_
  split
  · have hinner := hss m outer w hm h
    rcases hf : f outer w with e | ⟨w₁, out⟩ <;> rw [hf] at hinner
    · obtain ⟨i, e', hfailed, hcaused⟩ := hinner
      rw [hfailed]
      exact ⟨i, e', rfl, hcaused⟩
    · obtain ⟨m₁, hdone, hm₁, hview⟩ := hinner
      rw [hdone]
      -- without a jump to the end, nothing is left that could run
      cases leave with
      | none => exact hleave rfl ▸ ⟨m₁, rfl, hm₁, hview⟩
      | some l => exact ⟨m₁, rfl, hm₁, hview⟩
  · exact hrest m outer w hm h

end Branches

/-! ### Trees -/

variable (host run evaluate component kept depth) in
/-- The statements of a node, and those of its children, do what the interpretation says. -/
def NodeSimulates (c : Node) : Prop :=
  (∀ n, Simulates host run kept depth (statements n c) fun outer w => interpret (evaluate false) component outer n c w) ∧
  ∀ n, Simulates host run kept depth (statementsAll n c.children) fun outer w =>
    interpretAll (evaluate false) component outer n c.children w

theorem simulates_statementsAll_of (ns : List Node)
    (h : ∀ c ∈ ns, NodeSimulates host run evaluate component kept depth c) (n : Nat) :
    Simulates host run kept depth (statementsAll n ns) fun outer w =>
      interpretAll (evaluate false) component outer n ns w := by
  induction ns generalizing n with
  | nil => exact simulates_nil
  | cons c cs ih =>
    obtain ⟨hc, hcs⟩ := List.forall_mem_cons.mp h
    simp only [statementsAll, interpretAll]
    split
    · exact ih hcs n
    · exact (hc.1 n).append (ih hcs _)

theorem simulates_parts (ns : List Node) (h : ∀ c ∈ ns, NodeSimulates host run evaluate component kept depth c) (n : Nat) :
    Simulates host run kept depth (parts n ns) fun outer w =>
      interpretParts (evaluate false) component outer n ns w := by
  induction ns generalizing n with
  | nil => exact simulates_nil
  | cons c cs ih =>
    obtain ⟨hc, hcs⟩ := List.forall_mem_cons.mp h
    cases c with
    | part owner tag children => exact (hc.2 n).append (ih hcs _)
    | text | interpolation | directive => exact ih hcs n

/-- Nothing follows a branch that does not leave. -/
theorem alternatives_of_leaving (stop : Int) (ns : List Node) (h : leaving stop ns = none) (n : Nat) :
    alternatives stop n ns = [] := by
  induction ns with
  | nil => rfl
  | cons c cs ih =>
    cases c with
    | part owner tag children => simp [leaving, Node.isPart] at h
    | text | interpolation | directive => exact ih (by simpa [leaving, Node.isPart] using h)

/-- The components of nodes are at some paths. -/
def Closed (pages : Bytes → Prop) (nodes : List Node) : Prop :=
  ∀ t ∈ Node.tagsList nodes, t.name = "component" → pages (nameArg componentDirective t "path")

instance (pages : Bytes → Prop) [DecidablePred pages] (nodes : List Node) : Decidable (Closed pages nodes) :=
  inferInstanceAs (Decidable (∀ t ∈ Node.tagsList nodes, t.name = "component" →
    pages (nameArg componentDirective t "path")))

section Trees
variable (hset : Setting host run evaluate component pages kept depth)
include hset

theorem settles_alternatives (stop : Int) (ns : List Node)
    (h : ∀ c ∈ ns, NodeSimulates host run evaluate component kept depth c) (n : Nat) :
    Settles host run kept depth (alternatives stop n ns) fun outer w =>
      interpretElse (evaluate false) component outer n ns w := by
  induction ns generalizing n with
  | nil => exact simulates_nil.settles
  | cons c cs ih =>
    obtain ⟨hc, hcs⟩ := List.forall_mem_cons.mp h
    cases c with
    | part owner tag children =>
      simp only [alternatives, interpretElse]
      split
      · exact settles_branch hset (hc.2 _) (ih hcs _) _ _ fun hleave => alternatives_of_leaving stop cs hleave _
      · exact (hc.2 n).settles
    | text | interpolation | directive => exact ih hcs n

theorem settles_choices (subject : Bytes) (stop : Int) (ns : List Node)
    (h : ∀ c ∈ ns, NodeSimulates host run evaluate component kept depth c) (n : Nat) :
    Settles host run kept depth (choices subject stop n ns) fun outer w =>
      interpretCases (evaluate false) component outer subject n ns w := by
  induction ns generalizing n with
  | nil => exact simulates_nil.settles
  | cons c cs ih =>
    obtain ⟨hc, hcs⟩ := List.forall_mem_cons.mp h
    cases c with
    | part owner tag children =>
      simp only [choices, interpretCases]
      split
      · exact settles_branch hset (hc.2 _) (ih hcs _) _ _ fun hleave => absurd hleave (Option.some_ne_none _)
      · exact (hc.2 n).settles
    | text | interpolation | directive => exact ih hcs n

theorem simulates_directive (tag : Tag) (hpage : tag.name = "component" → pages (nameArg componentDirective tag "path"))
    (children : List Node)
    (h : ∀ c ∈ children, NodeSimulates host run evaluate component kept depth c) (n : Nat) :
    Simulates host run kept depth (statements n (.directive tag children)) fun outer w =>
      interpret (evaluate false) component outer n (.directive tag children) w := by
  have hbody (k : Nat) := simulates_statementsAll_of children h k
  simp only [statements, interpret]
  by_cases hif : tag.name = "if"
  · simp only [↓if_pos hif]
    refine (settles_branch hset (hbody _) (settles_alternatives hset _ children h _) _ _ fun hleave => ?_).region _
    exact alternatives_of_leaving _ children hleave _
  simp only [↓if_neg hif]
  by_cases hswitch : tag.name = "switch"
  · simp only [↓if_pos hswitch]
    exact simulates_set hset ((settles_choices hset _ _ children h _).region _) _ _
  simp only [↓if_neg hswitch]
  by_cases heach : tag.name = "each"
  · simp only [↓if_pos heach]
    exact simulates_merge (simulates_loop hset (hbody _) (simulates_parts children h _) _ _ _ _ _ _)
  simp only [↓if_neg heach]
  by_cases hassign : tag.name = "set"
  · simp only [↓if_pos hassign]
    exact simulates_set hset (hbody n) _ _
  simp only [↓if_neg hassign]
  by_cases hinclude : tag.name = "include"
  · simp only [↓if_pos hinclude]
    exact simulates_merge (simulates_bind hset (hbody n) _)
  simp only [↓if_neg hinclude]
  by_cases hsection : tag.name = "section"
  · simp only [↓if_pos hsection]
    exact simulates_section (hbody n) _
  simp only [↓if_neg hsection]
  by_cases hpush : tag.name = "push"
  · simp only [↓if_pos hpush]
    exact simulates_push (hbody n) _
  simp only [↓if_neg hpush]
  by_cases hslot : tag.name = "slot"
  · simp only [↓if_pos hslot]
    exact simulates_slot (hbody n) _
  simp only [↓if_neg hslot]
  by_cases hcomponent : tag.name = "component"
  · simp only [↓if_pos hcomponent]
    exact simulates_component (hbody n) hset (hpage hcomponent) _
  simp only [↓if_neg hcomponent]
  exact simulates_nil

theorem nodeSimulates (c : Node)
    (hpages : ∀ t ∈ c.tags, t.name = "component" → pages (nameArg componentDirective t "path")) :
    NodeSimulates host run evaluate component kept depth c := by
  induction c using Node.byChildren with
  | h c ih =>
    have hchildren : ∀ d ∈ c.children, NodeSimulates host run evaluate component kept depth d := by
      intro d hd
      refine ih d hd fun t ht => hpages t ?_
      cases c with
      | text | interpolation => cases hd
      | directive tag children | part owner tag children =>
        exact List.mem_cons_of_mem _ (Control.mem_tags_of_mem ht children hd)
    refine ⟨fun n => ?_, simulates_statementsAll_of c.children hchildren⟩
    cases c with
    | text value span => exact simulates_text value span n
    | interpolation expr escaped span => exact simulates_emit hset expr escaped
    | part owner tag children => exact simulates_nil
    | directive tag children => exact simulates_directive hset tag (hpages tag List.mem_cons_self) children hchildren n

/-- The statements of a template do what the template means. -/
theorem simulates_statementsAll {ns : List Node} (hns : Closed pages ns) (n : Nat) :
    Simulates host run kept depth (statementsAll n ns) fun outer w =>
      interpretAll (evaluate false) component outer n ns w :=
  simulates_statementsAll_of ns
    (fun c hc => nodeSimulates hset c fun t ht => hns t (Control.mem_tags_of_mem ht ns hc)) n

end Trees

end

end Stencil.Blocks
