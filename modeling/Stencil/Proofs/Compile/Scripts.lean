import Stencil.Compile.Template
import Stencil.Directive.Standard

/-! # Running of scripts, by request

What each request of a script does to the state, and rules for outcomes: `Ends` says what holds after
a success and what after a failure, and goes through scripts and the life of a directive step by step. -/

namespace Stencil.Compile

open Stencil.Directive
open Stencil.Markup (Node Tag)

/-! ### Changes of the state -/

namespace State

/-- One more label is handed out. -/
def numbered (st : State) : State := { st with labels := st.labels + 1 }

/-- The chain at hand remembers a value. -/
def keeping (st : State) (key : Bytes) (v : Value) : State := { st with data := Assoc.insert key v st.data }

/-- The label that a chain keeps under a key; zero when it keeps none. -/
def keptLabel (st : State) (key : Bytes) : Int :=
  match Assoc.get? key st.data with
  | some (.int n) => n
  | _ => 0

variable (st : State) (key other : Bytes) (v : Value) (n : Int) (part : Section) (code code' : List Instr)

@[simp] theorem labels_numbered : st.numbered.labels = st.labels + 1 := rfl
@[simp] theorem labels_keeping : (st.keeping key v).labels = st.labels := rfl
@[simp] theorem labels_emit : (st.emit part code).labels = st.labels := rfl
@[simp] theorem data_numbered : st.numbered.data = st.data := rfl
@[simp] theorem data_emit : (st.emit part code).data = st.data := rfl
@[simp] theorem data_keeping : (st.keeping key v).data = Assoc.insert key v st.data := rfl
@[simp] theorem keptLabel_numbered : st.numbered.keptLabel key = st.keptLabel key := rfl
@[simp] theorem keptLabel_emit : (st.emit part code).keptLabel key = st.keptLabel key := rfl

@[simp] theorem keptLabel_keeping_self : (st.keeping key (.int n)).keptLabel key = n := by
  simp [keptLabel]

theorem keptLabel_keeping_ne (h : key ≠ other) : (st.keeping other v).keptLabel key = st.keptLabel key := by
  simp only [keptLabel, data_keeping, Assoc.get?_insert_ne h]

theorem keptLabel_congr {st st' : State} (h : st'.data = st.data) (key : Bytes) :
    st'.keptLabel key = st.keptLabel key := by
  simp [keptLabel, h]

theorem emit_emit : (st.emit part code).emit part code' = st.emit part (code ++ code') := by
  cases part <;> simp [emit, Output.append]

end State

section Requests
variable {α β : Type} (env : Env) (ask : Requests) (st : State)

theorem runScript_bind (s : Script α) (f : α → Script β) :
    runScript env ask (s >>= f) st = andThen (runScript env ask s st) fun a st => runScript env ask (f a) st := by
  show runScript env ask (s.bind f) st = _
  induction s generalizing st with
  | done a => rfl
  | _ => simp [Script.bind, runScript, andThen, *]

@[simp] theorem runScript_pure (a : α) : runScript env ask (pure a) st = (.ok a, st) := rfl

@[simp] theorem runScript_fail (e : Failure) : runScript env ask (.fail e : Script α) st = (.error e, st) := rfl

@[simp] theorem runScript_refuse (text : Bytes) :
    runScript env ask (Script.refuse text : Script α) st = (.error (.refused text), st) := rfl

@[simp] theorem runScript_ofExcept (r : Except Failure α) : runScript env ask (Script.ofExcept r) st = (r, st) := by
  cases r <;> rfl

@[simp] theorem runScript_ofRead (r : Except Argument.ReadError α) :
    runScript env ask (Script.ofRead r) st = (r.mapError .arguments, st) := by
  cases r <;> rfl

theorem runScript_ofRead_ok (a : α) : runScript env ask (Script.ofRead (.ok a)) st = (.ok a, st) := rfl

@[simp] theorem runScript_emits (instrs : List Instr) :
    runScript env ask (Script.emits instrs) st = (.ok (), st.emit env.part instrs) := rfl

@[simp] theorem runScript_label :
    runScript env ask Script.label st = (.ok (st.labels + 1), st.numbered) := rfl

@[simp] theorem runScript_text (s : Bytes) :
    runScript env ask (Script.text s) st = (.ok (), st.add env.part s) := rfl

@[simp] theorem runScript_data? (key : Bytes) :
    runScript env ask (Script.data? key) st = (.ok (Assoc.get? key st.data), st) := rfl

@[simp] theorem runScript_keep (key : Bytes) (v : Value) :
    runScript env ask (Script.keep key v) st = (.ok (), st.keeping key v) := rfl

@[simp] theorem runScript_state? (key : Bytes) :
    runScript env ask (Script.state? key) st = (.ok (Assoc.get? key st.memory), st) := rfl

@[simp] theorem runScript_remember (key : Bytes) (v : Value) :
    runScript env ask (Script.remember key v) st =
      (.ok (), { st with memory := Assoc.insert key v st.memory }) := rfl

@[simp] theorem runScript_compiled (which : Selection) :
    runScript env ask (Script.compiled which) st = ask.compile which st := by
  simp [Script.compiled, runScript]

@[simp] theorem runScript_chained : runScript env ask Script.chained st = ask.chain st := by
  simp [Script.chained, runScript]

@[simp] theorem runScript_literal (which : Selection) :
    runScript env ask (Script.literal which) st = (ask.literalText which, st) := by
  simp [Script.literal, runScript]

@[simp] theorem runScript_keptLabel (key : Bytes) :
    runScript env ask (Standard.keptLabel key) st = (.ok (st.keptLabel key), st) := by
  rw [Standard.keptLabel, runScript_bind, runScript_data?, andThen, State.keptLabel]
  cases Assoc.get? key st.data with
  | none => rfl
  | some v => cases v <;> rfl

@[simp] theorem runScript_checkIdentifier (what name : Bytes) :
    runScript env ask (Standard.checkIdentifier what name) st =
      (if Standard.isIdentifier name then .ok () else .error (.notIdentifier what name), st) := by
  unfold Standard.checkIdentifier
  split <;> rfl

/-- Text for another loader leaves the selected loader and the instructions as they are, when the
other loader is not the primary one. -/
theorem runScript_addTo {name : Bytes} (text : Bytes) (hname : name ≠ primaryLoader) :
    ∃ channels, runScript env ask (Script.addTo name text) st =
      (.ok (), { st with out := { st.out with channels } }) := by
  by_cases htext : text = [] <;>
    simp [Script.addTo, runScript, State.add, Output.add, htext, hname]

end Requests

/-! ### Outcomes -/

/-- A success ends in a state that `ok` holds of, a failure in one that `failed` holds of. -/
def Ends {α : Type} (o : Outcome α) (ok : α → State → Prop) (failed : State → Prop) : Prop :=
  match o with
  | (.ok a, st) => ok a st
  | (.error _, st) => failed st

namespace Ends
variable {α β : Type} {o : Outcome α} {ok : α → State → Prop} {failed : State → Prop}

theorem andThen {f : α → State → Outcome β} {then_ : β → State → Prop} (h : Ends o ok failed)
    (hf : ∀ a st, ok a st → Ends (f a st) then_ failed) : Ends (Compile.andThen o f) then_ failed := by
  obtain ⟨r, st⟩ := o
  cases r with
  | error e => exact h
  | ok a => exact hf a st h

theorem mono {ok' : α → State → Prop} (h : Ends o ok failed) (hok : ∀ a st, ok a st → ok' a st) :
    Ends o ok' failed := by
  obtain ⟨r, st⟩ := o
  cases r with
  | error e => exact h
  | ok a => exact hok a st h

theorem mono_failed {failed' : State → Prop} (h : Ends o ok failed) (hf : ∀ st, failed st → failed' st) :
    Ends o ok failed' := by
  obtain ⟨r, st⟩ := o
  cases r with
  | error e => exact hf st h
  | ok a => exact h

/-- An outcome that only reads leaves the state. -/
theorem of_read {r : Except Failure α} {st : State} (hfailed : failed st) :
    Ends (r, st) (fun a st' => r = .ok a ∧ st = st') failed := by
  cases r with
  | error e => exact hfailed
  | ok a => exact ⟨rfl, rfl⟩

/-- Arguments are read without a change too. -/
theorem of_arguments {r : Except Argument.ReadError α} {st : State} (hfailed : failed st) :
    Ends (r.mapError .arguments, st) (fun a st' => r = .ok a ∧ st = st') failed := by
  cases r with
  | error e => exact hfailed
  | ok a => exact ⟨rfl, rfl⟩

end Ends

/-- The children of a directive: those that its own hook compiles, or all. -/
def lifeOfChildren (env : Env) (ask : Requests) (d : Definition) (call : Call) (st : State) : Outcome Unit :=
  match d.onChildren with
  | some f => runScript env ask (f call) st
  | none => andThen (ask.compile .regular st) fun _ st => ask.chain st

/-- The life of a directive ends as its stages do. -/
theorem ends_lifecycle {env : Env} {ask : Requests} {tag : Tag} {d : Definition} {owner : Bytes} {st : State}
    {A B C D : State → Prop} {failed : State → Prop} (hfailed : failed st)
    (h : ∀ args, Argument.read tag.expr d.params = .ok args →
      Ends (runHook env ask ⟨tag, args, owner, env.unit⟩ d.onInit st) (fun _ => A) failed ∧
      (∀ st₁, A st₁ → Ends (runHook env ask ⟨tag, args, owner, env.unit⟩ d.onParams st₁) (fun _ => B) failed) ∧
      (∀ st₂, B st₂ → Ends (lifeOfChildren env ask d ⟨tag, args, owner, env.unit⟩ st₂) (fun _ => C) failed) ∧
      (∀ st₃, C st₃ → Ends (runHook env ask ⟨tag, args, owner, env.unit⟩ d.onEnd st₃) (fun _ => D) failed)) :
    Ends (lifecycle env ask tag d owner st) (fun _ => D) failed := by
  unfold lifecycle
  split
  · exact hfailed
  · rename_i args hargs
    obtain ⟨hinit, hparams, hchildren, hend⟩ := h args hargs
    exact hinit.andThen fun _ st₁ h₁ => (hparams st₁ h₁).andThen fun _ st₂ h₂ =>
      (hchildren st₂ h₂).andThen fun _ st₃ h₃ => hend st₃ h₃

end Stencil.Compile
