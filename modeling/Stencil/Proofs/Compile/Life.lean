import Stencil.Proofs.Compile.Rollback

/-! # The life of a directive as one script

The hooks that run at one use of a directive, with the children in between, are one script; what holds of
scripts then holds of lives. A cancellation lasts, whatever is compiled. -/

namespace Stencil.Compile

open Stencil.Directive
open Stencil.Markup (Node Tag)

/-! ### Lives -/

/-- What a hook does, if there is one. -/
def hookScript (hook : Option (Call → Script Unit)) (call : Call) : Script Unit :=
  match hook with
  | none => pure ()
  | some f => f call

/-- The children of a directive, then the parts of its chain, unless it has a hook for them. -/
def childrenScript (d : Definition) (call : Call) : Script Unit :=
  match d.onChildren with
  | some f => f call
  | none => do
    Script.compiled .regular
    Script.chained

/-- All hooks of a directive in order, once its arguments are read. -/
def hooksScript (d : Definition) (call : Call) : Script Unit := do
  hookScript d.onInit call
  hookScript d.onParams call
  childrenScript d call
  hookScript d.onEnd call

/-- The life of a directive at one use. -/
def lifeScript (d : Definition) (tag : Tag) (owner : Bytes) (unit : UnitInfo) : Script Unit :=
  match Argument.read tag.expr d.params with
  | .error e => .fail (.arguments e)
  | .ok args => hooksScript d { tag, args, owner, unit }

section Runs
variable (env : Env) (ask : Requests)

theorem runHook_eq (call : Call) (hook : Option (Call → Script Unit)) (st : State) :
    runHook env ask call hook st = runScript env ask (hookScript hook call) st := by
  cases hook <;> rfl

theorem runScript_childrenScript (d : Definition) (call : Call) (st : State) :
    runScript env ask (childrenScript d call) st = lifeOfChildren env ask d call st := by
  unfold childrenScript lifeOfChildren
  cases d.onChildren with
  | some f => rfl
  | none => simp only [runScript_bind, runScript_compiled, runScript_chained]

theorem lifecycle_eq (tag : Tag) (d : Definition) (owner : Bytes) (st : State) :
    lifecycle env ask tag d owner st = runScript env ask (lifeScript d tag owner env.unit) st := by
  unfold lifecycle lifeScript
  cases Argument.read tag.expr d.params with
  | error e => rfl
  | ok args =>
    simp only [hooksScript, runScript_bind, runScript_childrenScript, runHook_eq]
    rfl

end Runs

/-! ### Cancellations -/

/-- Before what is not cancelled nothing was. -/
theorem State.Extends.running {st st' : State} (h : st.Extends st') (running : st'.canceled = false) :
    st.canceled = false := by
  cases hst : st.canceled with
  | false => rfl
  | true => exact absurd (h.canceled hst) (by simp [running])

/-- Hooks at the start or end of a template add nothing but errors to what scripts do. -/
theorem extends_fileRequests (env : Env) : (fileRequests env).Keeps State.Extends :=
  ⟨fun _ st => .refl st, .refl, extends_embedAt maxIncludes env (uses_anything env)⟩

theorem canceled_runFileHook (env : Env) (d : Definition) (hook : Option (UnitInfo → Script Unit)) {st : State}
    (h : st.canceled = true) : (runFileHook env d hook st).canceled = true := by
  cases hook with
  | none => exact h
  | some f =>
    have hrun : st.Extends (runScript env (fileRequests env) (f env.unit) st).2 :=
      kept_extends.runScript (extends_fileRequests env) (Script.only_true _) st
    rcases hscript : runScript env (fileRequests env) (f env.unit) st with ⟨e | u, after⟩ <;> rw [hscript] at hrun
    · simp only [runFileHook, hscript]
      exact hrun.canceled h
    · simp only [runFileHook, hscript]
      exact hrun.canceled h

end Stencil.Compile
