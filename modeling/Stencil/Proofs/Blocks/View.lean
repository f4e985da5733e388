import Stencil.Proofs.Blocks.Meaning
import Stencil.Proofs.Control.Simulation
import Stencil.Proofs.Render.Statements

/-! # What states show

The view of a state is what the programs that run in it can see and change. Everything that runs turns the view into
one that says what the interpretation says (`View.update`) and is the same in all else. Slots count only for the
bodies of components. -/

namespace Stencil.Blocks

open Stencil.Control (lookup)
open Stencil.Render (State Scope Host Loop Evaluator)

/-- A scope without its slots. -/
structure Level where
  vars : Bindings
  out : Bytes
  isComponent : Bool

/-- A state as its programs see it. -/
structure View where
  top : Level
  outer : List Level
  /-- The slots of the component bodies around, the nearest first. -/
  slots : List (Assoc Bytes Bytes)
  sections : Assoc Bytes Bytes
  pushed : Assoc Bytes (List Bytes)
  fallbacks : Assoc Bytes Bytes

def level (s : Scope) : Level := ⟨s.vars, s.out, s.isComponent⟩

/-- The slots of the component bodies among scopes. -/
def bodies (scopes : List Scope) : List (Assoc Bytes Bytes) := (scopes.filter (·.isComponent)).map (·.slots)

def view (m : State) : View where
  top := level m.top
  outer := m.outer.map level
  slots := bodies m.scopes
  sections := m.shared.sections
  pushed := m.shared.pushed
  fallbacks := m.shared.fallbacks

namespace View

/-- The bindings of the scopes around the innermost one. -/
def around (v : View) : List Bindings := v.outer.map (·.vars)

/-- The view after something has run: it left the world `w` and has written `out`. -/
def update (v : View) (w : World) (out : Bytes) : View :=
  { v with
    top := { v.top with vars := w.vars, out := v.top.out ++ out }
    slots := v.slots.modifyHead fun _ => w.slots
    sections := w.sections
    pushed := w.pushed }

/-- The view in a new scope. -/
def enter (v : View) (vars : Bindings) (isComponent : Bool) : View :=
  { v with
    top := ⟨vars, [], isComponent⟩
    outer := v.top :: v.outer
    slots := if isComponent then [] :: v.slots else v.slots }

/-- The view once the innermost scope is closed. -/
def leave (v : View) : View :=
  match v.outer with
  | [] => v
  | l :: rest => { v with top := l, outer := rest, slots := if v.top.isComponent then v.slots.tail else v.slots }

/-- The world and the scopes around are those of the view. -/
structure Shows (v : View) (outer : List Bindings) (w : World) : Prop where
  same : v.update w [] = v
  around : v.around = outer

@[simp] theorem update_update (v : View) (w w' : World) (out out' : Bytes) :
    (v.update w out).update w' out' = v.update w' (out ++ out') := by
  simp [update, Function.comp_def]

section
variable {v : View} {outer : List Bindings} {w w' : World}

theorem Shows.vars (h : v.Shows outer w) : v.top.vars = w.vars := congrArg (·.top.vars) h.same.symm

theorem Shows.sections (h : v.Shows outer w) : w.sections = v.sections := congrArg (·.sections) h.same

theorem Shows.pushed (h : v.Shows outer w) : w.pushed = v.pushed := congrArg (·.pushed) h.same

theorem Shows.slots (h : v.Shows outer w) : (v.slots.modifyHead fun _ => w.slots) = v.slots := congrArg (·.slots) h.same

theorem Shows.update (h : v.Shows outer w) (w' : World) (out : Bytes) : (v.update w' out).Shows outer w' :=
  ⟨by rw [update_update, List.append_nil], h.around⟩

theorem Shows.enter (h : v.Shows outer w) (vars : Bindings) :
    (v.enter vars false).Shows (w.vars :: outer) { w with vars } := by
  constructor
  · simp [View.update, View.enter, h.slots, h.sections, h.pushed]
  · simp [View.around, View.enter, h.vars, ← h.around]

theorem Shows.enterComponent (h : v.Shows outer w) (vars : Bindings) :
    (v.enter vars true).Shows (w.vars :: outer) { w with vars, slots := [] } := by
  constructor
  · simp [View.update, View.enter, h.sections, h.pushed]
  · simp [View.around, View.enter, h.vars, ← h.around]

theorem Shows.update_vars (h : v.Shows outer w) (vars : Bindings) (out : Bytes) :
    v.update { w with vars } out = { v with top := { v.top with vars, out := v.top.out ++ out } } := by
  simp [View.update, h.slots, h.sections, h.pushed]

/-- What ran in a scope leaves the bindings around. -/
theorem Shows.leave (h : v.Shows outer w) (vars : Bindings) (w' : World) (out : Bytes) :
    ((v.enter vars false).update w' out).leave = v.update { w' with vars := w.vars } [] := by
  simp [View.leave, View.update, View.enter, ← h.vars]

/-- What ran in the body of a component leaves the slots around, too. -/
theorem Shows.leaveComponent (h : v.Shows outer w) (vars : Bindings) (w' : World) (out : Bytes) :
    ((v.enter vars true).update w' out).leave = v.update { w' with vars := w.vars, slots := w.slots } [] := by
  simp [View.leave, View.update, View.enter, ← h.vars, h.slots]

end

end View

/-! ### Changes of states -/

section
variable (m : State)

theorem view_enter (vars : Bindings) (isComponent : Bool) :
    view (m.enter { vars, isComponent }) = (view m).enter vars isComponent := by
  cases isComponent <;> rfl

theorem view_leave : view m.leave = (view m).leave := by
  obtain ⟨top, outer, shared⟩ := m
  cases outer with
  | nil => rfl
  | cons s rest => cases h : top.isComponent <;> simp [view, State.leave, View.leave, State.scopes, bodies, level, h]

/-- A slot is set in the nearest body. -/
theorem bodies_captureSlot (name content : Bytes) (scopes : List Scope) :
    match Scope.captureSlot name content scopes with
    | some scopes' => scopes'.map level = scopes.map level ∧
        bodies scopes' = (bodies scopes).modifyHead (Assoc.insert name content)
    | none => bodies scopes = [] := by
  induction scopes with
  | nil => rfl
  | cons s rest ih =>
    rw [Scope.captureSlot]
    cases hs : s.isComponent with
    | true => simp [bodies, hs, level, Scope.setSlot]
    | false =>
      cases hrest : Scope.captureSlot name content rest with
      | none => simpa [bodies, hs, hrest] using ih
      | some rest' => simpa [bodies, hs, hrest] using ih

theorem view_setSlot (name content : Bytes) :
    view (m.setSlot name content) = { view m with slots := (view m).slots.modifyHead (Assoc.insert name content) } := by
  have h := bodies_captureSlot name content m.scopes
  unfold State.setSlot
  split
  · rename_i s rest hcapture
    rw [hcapture] at h
    obtain ⟨hlevels, hbodies⟩ := h
    obtain ⟨htop, houter⟩ := List.cons.inj hlevels
    simp only [view, State.scopes, htop, houter] at hbodies ⊢
    rw [hbodies]
  · rename_i hnone
    cases hcapture : Scope.captureSlot name content m.scopes with
    | none =>
      rw [hcapture] at h
      have htop : m.top.isComponent = false := by
        cases htop : m.top.isComponent with
        | false => rfl
        | true => simp [bodies, State.scopes, htop] at h
      have hslots : bodies ({ m with top := m.top.setSlot name content } : State).scopes = [] := by
        simpa [bodies, State.scopes, Scope.setSlot, htop] using h
      simp only [view, hslots, h]
      rfl
    | some scopes =>
      -- no scope is lost
      rw [hcapture] at h
      cases scopes with
      | nil => cases h.1
      | cons s rest => exact absurd hcapture (hnone s rest)

variable {m} {outer : List Bindings} {w : World} (h : (view m).Shows outer w)
include h

theorem view_top (vars : Bindings) (out : Bytes) :
    view { m with top := { m.top with vars, out := m.top.out ++ out } } = (view m).update { w with vars } out := by
  rw [h.update_vars]
  cases htop : m.top.isComponent <;> simp [view, level, bodies, State.scopes, htop]

theorem view_write (text : Bytes) : view (m.write text) = (view m).update w text := by
  have htop := view_top h m.top.vars text
  rwa [show ({ w with vars := m.top.vars } : World) = w by rw [show m.top.vars = w.vars from h.vars]] at htop

theorem view_setAll (bindings : Bindings) :
    view (m.setAll bindings) = (view m).update { w with vars := Assoc.insertAll w.vars bindings } [] := by
  rw [← view_top h, ← show m.top.vars = w.vars from h.vars, List.append_nil]
  rfl

theorem view_set (name : Bytes) (x : Value) :
    view (m.set name x) = (view m).update { w with vars := Assoc.insert name x w.vars } [] := by
  rw [← view_top h, ← show m.top.vars = w.vars from h.vars, List.append_nil]
  rfl

theorem view_define (name out : Bytes) :
    view { m with shared := m.shared.define name out } = (view m).update (w.define name out) [] := by
  calc view { m with shared := m.shared.define name out }
      = { view m with sections := Assoc.insert name out (view m).sections } := rfl
    _ = { (view m).update w [] with sections := Assoc.insert name out w.sections } := by rw [h.same, h.sections]
    _ = (view m).update (w.define name out) [] := rfl

theorem view_push (name out : Bytes) :
    view { m with shared := m.shared.push name out } = (view m).update (w.push name out) [] := by
  calc view { m with shared := m.shared.push name out }
      = { view m with
          pushed := Assoc.insert name ((Assoc.get? name (view m).pushed).getD [] ++ [out]) (view m).pushed } := rfl
    _ = { (view m).update w [] with
          pushed := Assoc.insert name ((Assoc.get? name w.pushed).getD [] ++ [out]) w.pushed } := by rw [h.same, h.pushed]
    _ = (view m).update (w.push name out) [] := rfl

theorem view_capture (name out : Bytes) : view (m.setSlot name out) = (view m).update (w.setSlot name out) [] := by
  have hslots : (view m).slots.modifyHead (Assoc.insert name out) =
      (view m).slots.modifyHead fun _ => Assoc.insert name out w.slots := by
    have hsame := h.slots
    cases hs : (view m).slots with
    | nil => rfl
    | cons s rest =>
      rw [hs] at hsame
      rw [List.modifyHead_cons, List.modifyHead_cons, ← (List.cons.inj hsame).1]
  calc view (m.setSlot name out)
      = { view m with slots := (view m).slots.modifyHead (Assoc.insert name out) } := view_setSlot m name out
    _ = { (view m).update w [] with slots := (view m).slots.modifyHead fun _ => Assoc.insert name out w.slots } := by
      rw [h.same, hslots]
    _ = (view m).update (w.setSlot name out) [] := rfl

theorem eval_eq {host : Host} {evaluate : Evaluator} (hhost : host.evaluator = some evaluate)
    (hrunning : m.shared.session.canceled = false) (expr : Bytes) :
    m.eval host expr = evaluate false expr (lookup (w.vars :: outer)) := by
  have hscopes : m.top.vars :: Control.around m = w.vars :: outer := by
    rw [← h.vars, ← h.around]
    simp [Control.around, View.around, view, level]
  rw [State.eval, hhost, Control.lookup_eq, hrunning, hscopes]

end

end Stencil.Blocks
