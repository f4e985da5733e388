import Stencil.Directive.Action
import Stencil.Directive.Standard

/-! # What scripts ask for

`Script.Only` says of a script that it emits only instructions that are allowed, whatever the answers to its
requests are. `Script.Local` says also that it asks for no other template, and what its result may be. Both go
through scripts one request at a time. Of the standard directives only includes ask for other templates, and
no hook of a node fills in placeholders. -/

namespace Stencil.Directive

namespace Script
variable {α β : Type} {allowed : Instr → Prop}

/-- No other template is asked for, all instructions are allowed, and a result satisfies `P`. -/
def Local (allowed : Instr → Prop) (P : α → Prop) : Script α → Prop
  | .done a => P a
  | .fail _ => True
  | .abort _ => True
  | .emit _ instrs next => (∀ i ∈ instrs, allowed i) ∧ next.Local allowed P
  | .newLabel next => ∀ l, (next l).Local allowed P
  | .add _ next => next.Local allowed P
  | .loader next => ∀ name, (next name).Local allowed P
  | .useLoader _ next => next.Local allowed P
  | .compile _ next => ∀ r, (next r).Local allowed P
  | .chain next => ∀ r, (next r).Local allowed P
  | .literalText _ next => ∀ r, (next r).Local allowed P
  | .resolve _ _ => False
  | .embed _ _ _ _ => False
  | .getState _ next => ∀ v, (next v).Local allowed P
  | .setState _ _ next => next.Local allowed P
  | .getData _ next => ∀ v, (next v).Local allowed P
  | .setData _ _ next => next.Local allowed P
  | .log _ next => next.Local allowed P
  | .cancel next => next.Local allowed P

/-- All instructions are allowed. -/
def Only (allowed : Instr → Prop) : Script α → Prop
  | .done _ => True
  | .fail _ => True
  | .abort _ => True
  | .emit _ instrs next => (∀ i ∈ instrs, allowed i) ∧ next.Only allowed
  | .newLabel next => ∀ l, (next l).Only allowed
  | .add _ next => next.Only allowed
  | .loader next => ∀ name, (next name).Only allowed
  | .useLoader _ next => next.Only allowed
  | .compile _ next => ∀ r, (next r).Only allowed
  | .chain next => ∀ r, (next r).Only allowed
  | .literalText _ next => ∀ r, (next r).Only allowed
  | .resolve _ next => ∀ r, (next r).Only allowed
  | .embed _ _ _ next => ∀ r, (next r).Only allowed
  | .getState _ next => ∀ v, (next v).Only allowed
  | .setState _ _ next => next.Only allowed
  | .getData _ next => ∀ v, (next v).Only allowed
  | .setData _ _ next => next.Only allowed
  | .log _ next => next.Only allowed
  | .cancel next => next.Only allowed

attribute [local simp] Local Only

theorem Local.only {P : α → Prop} {s : Script α} (h : s.Local allowed P) : s.Only allowed := by
  induction s with
  | done a | fail e | abort text => trivial
  | emit place instrs next ih => exact ⟨h.1, ih h.2⟩
  | add text next ih | useLoader name next ih | setState key v next ih | setData key v next ih | log line next ih
  | cancel next ih => exact ih h
  | newLabel next ih | loader next ih | compile which next ih | chain next ih | literalText which next ih
  | getState key next ih | getData key next ih => exact fun r => ih r (h r)
  | resolve path next ih | embed path src bindings next ih => exact h.elim

/-- Every script emits only instructions. -/
theorem only_true (s : Script α) : s.Only fun _ => True := by
  induction s <;> simp_all

theorem Only.bind {s : Script α} {f : α → Script β} (hs : s.Only allowed) (hf : ∀ a, (f a).Only allowed) :
    (s >>= f).Only allowed := by
  change (s.bind f).Only allowed
  induction s with
  | done a => exact hf a
  | fail e | abort text => trivial
  | emit place instrs next ih => exact ⟨hs.1, ih hs.2⟩
  | add text next ih | useLoader name next ih | setState key v next ih | setData key v next ih | log line next ih
  | cancel next ih => exact ih hs
  | newLabel next ih | loader next ih | compile which next ih | chain next ih | literalText which next ih
  | getState key next ih | getData key next ih | resolve path next ih | embed path src bindings next ih =>
    exact fun r => ih r (hs r)

theorem only_ofExcept (r : Except Failure α) : (ofExcept r).Only allowed := by cases r <;> trivial

theorem only_ofRead (r : Except Argument.ReadError α) : (ofRead r).Only allowed := by cases r <;> trivial

@[simp] theorem local_bind (s : Script α) (f : α → Script β) (Q : β → Prop) :
    (s >>= f).Local allowed Q ↔ s.Local allowed fun a => (f a).Local allowed Q := by
  show (s.bind f).Local allowed Q ↔ _
  induction s with
  | done a => rfl
  | _ => simp [Script.bind, *]

@[simp] theorem local_ite (c : Prop) [Decidable c] (s t : Script α) (P : α → Prop) :
    (if c then s else t).Local allowed P ↔ (c → s.Local allowed P) ∧ (¬c → t.Local allowed P) := by
  split <;> simp_all

section Results
variable (P : α → Prop)

@[simp] theorem local_pure (a : α) : (pure a : Script α).Local allowed P ↔ P a := .rfl

@[simp] theorem local_fail (e : Failure) : (.fail e : Script α).Local allowed P := trivial

@[simp] theorem local_abort (text : Bytes) : (.abort text : Script α).Local allowed P := trivial

@[simp] theorem local_refuse (text : Bytes) : (refuse text : Script α).Local allowed P := trivial

@[simp] theorem local_ofExcept (r : Except Failure α) : (ofExcept r).Local allowed P ↔ ∀ a, r = .ok a → P a := by
  cases r <;> simp [ofExcept]

@[simp] theorem local_ofRead (r : Except Argument.ReadError α) :
    (ofRead r).Local allowed P ↔ ∀ a, r = .ok a → P a := by
  cases r <;> simp [ofRead]

end Results

section Single
variable (P : Unit → Prop)

@[simp] theorem local_emits (instrs : List Instr) :
    (emits instrs).Local allowed P ↔ (∀ i ∈ instrs, allowed i) ∧ P () := .rfl

@[simp] theorem local_label (P : Nat → Prop) : label.Local allowed P ↔ ∀ l, P l := .rfl

@[simp] theorem local_data? (key : Bytes) (P : Option Value → Prop) : (data? key).Local allowed P ↔ ∀ v, P v := .rfl

@[simp] theorem local_state? (key : Bytes) (P : Option Value → Prop) : (state? key).Local allowed P ↔ ∀ v, P v := .rfl

@[simp] theorem local_keep (key : Bytes) (v : Value) : (keep key v).Local allowed P ↔ P () := .rfl

@[simp] theorem local_remember (key : Bytes) (v : Value) : (remember key v).Local allowed P ↔ P () := .rfl

@[simp] theorem local_addTo (name text : Bytes) : (addTo name text).Local allowed P ↔ P () := by
  simp [addTo]

@[simp] theorem local_compiled (which : Selection) : (compiled which).Local allowed P ↔ P () := by
  simp only [compiled, Local, local_ofExcept]
  exact ⟨fun h => h (.ok ()) () rfl, fun h _ _ _ => h⟩

@[simp] theorem local_chained : chained.Local allowed P ↔ P () := by
  simp only [chained, Local, local_ofExcept]
  exact ⟨fun h => h (.ok ()) () rfl, fun h _ _ _ => h⟩

@[simp] theorem local_literal (which : Selection) (P : Bytes → Prop) :
    (literal which).Local allowed P ↔ ∀ text, P text := by
  simp only [literal, Local, local_ofExcept]
  exact ⟨fun h text => h (.ok text) text rfl, fun h _ text _ => h text⟩

end Single

end Script

/-- No hook of a node asks for another template, and all instructions of these hooks are allowed. -/
structure Definition.Local (allowed : Instr → Prop) (d : Definition) : Prop where
  onInit : ∀ f ∈ d.onInit, ∀ call, (f call).Local allowed fun _ => True
  onParams : ∀ f ∈ d.onParams, ∀ call, (f call).Local allowed fun _ => True
  onChildren : ∀ f ∈ d.onChildren, ∀ call, (f call).Local allowed fun _ => True
  onEnd : ∀ f ∈ d.onEnd, ∀ call, (f call).Local allowed fun _ => True

/-- All instructions of the hooks of a node are allowed. -/
structure Definition.Only (allowed : Instr → Prop) (d : Definition) : Prop where
  onInit : ∀ f ∈ d.onInit, ∀ call, (f call).Only allowed
  onParams : ∀ f ∈ d.onParams, ∀ call, (f call).Only allowed
  onChildren : ∀ f ∈ d.onChildren, ∀ call, (f call).Only allowed
  onEnd : ∀ f ∈ d.onEnd, ∀ call, (f call).Only allowed

theorem Definition.Local.only {allowed : Instr → Prop} {d : Definition} (h : d.Local allowed) : d.Only allowed :=
  ⟨fun f hf call => (h.onInit f hf call).only, fun f hf call => (h.onParams f hf call).only,
    fun f hf call => (h.onChildren f hf call).only, fun f hf call => (h.onEnd f hf call).only⟩

theorem Definition.only_true (d : Definition) : d.Only fun _ => True :=
  ⟨fun _ _ _ => Script.only_true _, fun _ _ _ => Script.only_true _, fun _ _ _ => Script.only_true _,
    fun _ _ _ => Script.only_true _⟩

namespace Standard
open Script

/-- The instruction does not fill in placeholders. One that it places is for a section, or for a stack, which
has no fallback. -/
structure Defers (i : Instr) : Prop where
  leaves : i.op ≠ .resolve
  kind : i.op = .placeholder → i.key = "section" ∨ i.key = "stack" ∧ i.text = []

theorem defers_iff (i : Instr) :
    Defers i ↔ i.op ≠ .resolve ∧ (i.op = .placeholder → i.key = "section" ∨ i.key = "stack" ∧ i.text = []) :=
  ⟨fun h => ⟨h.1, h.2⟩, fun h => ⟨h.1, h.2⟩⟩

section
variable {allowed : Instr → Prop}

@[simp] theorem local_keptLabel (key : Bytes) (P : Int → Prop) :
    (keptLabel key).Local allowed P ↔ ∀ v, P (labelOf v) := by
  simp only [keptLabel, local_bind, local_data?]
  refine forall_congr' fun v => ?_
  cases v with
  | none => rfl
  | some v => cases v <;> rfl

@[simp] theorem local_checkIdentifier (what name : Bytes) (P : Unit → Prop) :
    (checkIdentifier what name).Local allowed P ↔ (isIdentifier name = true → P ()) := by
  simp [checkIdentifier]

@[simp] theorem local_componentDepth (P : Int → Prop) : componentDepth.Local allowed P ↔ ∀ v, P (labelOf v) := by
  simp only [componentDepth, local_bind, local_state?]
  refine forall_congr' fun v => ?_
  cases v with
  | none => rfl
  | some v => cases v <;> rfl

theorem local_stackNames {P : Bindings → Prop} (h : ∀ names, P names) : stackNames.Local allowed P := by
  simp only [stackNames, local_bind, local_state?]
  rintro (_ | v)
  · trivial
  · cases v <;> first | exact h _ | trivial

@[simp] theorem local_addAsset (channel text : Bytes) (P : Unit → Prop) :
    (addAsset channel text).Local allowed P ↔ P () := by
  simp [addAsset]

end

/-! ### The standard directives -/

/-- A directive with no hooks of its own. -/
theorem local_of_none {d : Definition} {allowed : Instr → Prop} (hinit : d.onInit = none) (hparams : d.onParams = none)
    (hchildren : d.onChildren = none) (hend : d.onEnd = none) : d.Local allowed := by
  constructor <;> simp [hinit, hparams, hchildren, hend]

attribute [local simp] defers_iff Instr.jumpIfNot Instr.mark Instr.jump Instr.set Instr.enter Instr.exit
  Instr.enterComponent Script.Local

/-- The hooks that only emit instructions, write text and keep data. -/
theorem local_of_mem_plain {d : Definition}
    (hd : d ∈ [emptyPart, ifDirective, elseifPart, elsePart, switchDirective, casePart, defaultPart, eachDirective,
      setDirective, sectionDirective, yieldDirective, pushDirective, componentDirective, slotDirective, clientDirective,
      styleDirective]) : d.Local Defers := by
  simp only [List.mem_cons, List.not_mem_nil, or_false] at hd
  rcases hd with rfl | rfl | rfl | rfl | rfl | rfl | rfl | rfl | rfl | rfl | rfl | rfl | rfl | rfl | rfl | rfl
  all_goals constructor <;> rintro f ⟨⟩ call <;> simp

theorem local_extends : extendsDirective.Local Defers := by
  constructor <;> rintro f ⟨⟩ call
  simp only [local_bind, local_ofRead, local_state?]
  rintro path - (_ | previous) <;> simp

theorem local_stack : stackDirective.Local Defers := by
  constructor <;> rintro f ⟨⟩ call
  simp only [local_bind, local_ofRead]
  exact fun name _ => local_stackNames fun names => by simp

/-- Includes apart, no hook of a node asks for another template or fills in placeholders, nor does one of a
part of its chain; parts have no parts. -/
theorem local_of_mem_all {d : Definition} (hd : d ∈ all) (hinclude : d ≠ includeDirective) :
    d.Local Defers ∧ ∀ p ∈ d.parts, p.Local Defers ∧ p.parts = [] := by
  have hnone {d : Definition} (hparts : d.parts = []) : ∀ p ∈ d.parts, p.Local Defers ∧ p.parts = [] := by simp [hparts]
  simp only [all, List.mem_cons, List.not_mem_nil, or_false] at hd
  rcases hd with rfl | rfl | rfl | rfl | rfl | rfl | rfl | rfl | rfl | rfl | rfl | rfl | rfl | rfl
  · refine ⟨local_of_mem_plain (by simp), ?_⟩
    simpa [ifDirective] using ⟨⟨local_of_mem_plain (by simp), rfl⟩, local_of_mem_plain (by simp), rfl⟩
  · refine ⟨local_of_mem_plain (by simp), ?_⟩
    simpa [switchDirective] using ⟨⟨local_of_mem_plain (by simp), rfl⟩, local_of_mem_plain (by simp), rfl⟩
  · refine ⟨local_of_mem_plain (by simp), ?_⟩
    simpa [eachDirective] using ⟨local_of_mem_plain (by simp), rfl⟩
  · exact ⟨local_of_mem_plain (by simp), hnone rfl⟩
  · exact absurd rfl hinclude
  · exact ⟨local_extends, hnone rfl⟩
  · exact ⟨local_of_mem_plain (by simp), hnone rfl⟩
  · exact ⟨local_of_mem_plain (by simp), hnone rfl⟩
  · exact ⟨local_of_mem_plain (by simp), hnone rfl⟩
  · exact ⟨local_stack, hnone rfl⟩
  · exact ⟨local_of_mem_plain (by simp), hnone rfl⟩
  · exact ⟨local_of_mem_plain (by simp), hnone rfl⟩
  · exact ⟨local_of_mem_plain (by simp), hnone rfl⟩
  · exact ⟨local_of_mem_plain (by simp), hnone rfl⟩

/-- An include emits nothing of its own. -/
theorem only_include (allowed : Instr → Prop) : includeDirective.Only allowed := by
  constructor <;> rintro f ⟨⟩ call
  refine (only_ofRead _).bind fun path => (only_ofRead _).bind fun fallback => ?_
  rintro (e | src)
  · dsimp only
    split <;> trivial
  · exact fun r => only_ofExcept r

/-- All instructions of the hooks of nodes leave placeholders as they are, and so do those of parts; parts have no
parts. -/
theorem only_of_mem_all {d : Definition} (hd : d ∈ all) :
    d.Only Defers ∧ ∀ p ∈ d.parts, p.Only Defers ∧ p.parts = [] := by
  by_cases hinclude : d = includeDirective
  · subst hinclude
    exact ⟨only_include Defers, nofun⟩
  · obtain ⟨hlocal, hparts⟩ := local_of_mem_all hd hinclude
    exact ⟨hlocal.only, fun p hp => ⟨(hparts p hp).1.only, (hparts p hp).2⟩⟩

/-- The hooks for whole templates ask for no other template. -/
theorem local_fileHooks {d : Definition} (hd : d ∈ all) :
    (∀ f ∈ d.onInitFile, ∀ u, (f u).Local (fun _ => True) fun _ => True) ∧
      ∀ f ∈ d.onEndFile, ∀ u, (f u).Local (fun _ => True) fun _ => True := by
  have hresolve (uses : UnitInfo → Bool) (u : UnitInfo) :
      (if uses u then ensureResolve else pure ()).Local (fun _ => True) fun _ => True := by
    simp only [local_ite, ensureResolve, local_bind, local_state?]
    exact ⟨fun _ v => by simp, fun _ => trivial⟩
  simp only [all, List.mem_cons, List.not_mem_nil, or_false] at hd
  rcases hd with rfl | rfl | rfl | rfl | rfl | rfl | rfl | rfl | rfl | rfl | rfl | rfl | rfl | rfl
  all_goals constructor <;> rintro f ⟨⟩ u
  · simp
  · simp only [local_ite, local_bind, local_emits, local_state?]
    refine ⟨fun _ => ⟨fun _ _ => trivial, ?_⟩, fun _ => trivial⟩
    rintro (_ | path) <;> simp
  · exact hresolve (fun u => u.uses "yield") u
  · trivial
  · exact hresolve (fun u => u.uses "stack") u

end Standard

end Stencil.Directive
