import Stencil.Proofs.Compile.Life
import Stencil.Proofs.Directive.Lookup

/-! # Directives that fail early

A life may fail only before it changes anything that lasts: output is given back after a failure, but labels,
what hooks remember and the children that were compiled are not. It uses its children once, as nodes or as text,
and the parts of its chain once. `Script.Orderly` says so of scripts, one request at a time, and goes through
their composition. The standard directives and their parts are orderly, and what they do does not depend on the
rest of the template. -/

namespace Stencil.Directive

namespace Script
variable {α β : Type}

/-- What a script may still do. -/
structure Rights where
  fails : Bool := true
  /-- To use the children, as nodes or as text. -/
  compiles : Bool := true
  chains : Bool := true

/-- After a change that lasts. -/
def Rights.committed (r : Rights) : Rights := { r with fails := false }

/-- Nothing is done without the right to it. A result is judged with the rights that are left. Of children it is
assumed that they compile. -/
def Orderly (P : Rights → α → Prop) : Rights → Script α → Prop
  | r, .done a => P r a
  | r, .fail _ => r.fails = true
  | r, .abort _ => r.fails = true
  | r, .emit _ _ next => next.Orderly P r
  | r, .newLabel next => ∀ l, (next l).Orderly P r.committed
  | r, .add _ next => next.Orderly P r
  | r, .loader next => ∀ name, (next name).Orderly P r
  | r, .useLoader _ next => next.Orderly P r
  | r, .compile which next =>
    which = .regular ∧ r.compiles = true ∧ (next (.ok ())).Orderly P { r.committed with compiles := false }
  | r, .chain next => r.chains = true ∧ (next (.ok ())).Orderly P { r.committed with chains := false }
  | r, .literalText which next =>
    which = .regular ∧ r.compiles = true ∧ ∀ answer, (next answer).Orderly P { r with compiles := false }
  | r, .resolve _ next => ∀ answer, (next answer).Orderly P r
  | r, .embed _ _ _ next => (∀ e, (next (.error e)).Orderly P r) ∧ (next (.ok ())).Orderly P r.committed
  | r, .getState _ next => ∀ v, (next v).Orderly P r
  | r, .setState _ _ next => next.Orderly P r.committed
  | r, .getData _ next => ∀ v, (next v).Orderly P r
  | r, .setData _ _ next => next.Orderly P r.committed
  | r, .log _ next => next.Orderly P r
  | _, .cancel _ => False

attribute [local simp] Orderly

section Rules
variable {P : Rights → α → Prop} {r : Rights}

@[simp] theorem orderly_bind (s : Script α) (f : α → Script β) (Q : Rights → β → Prop) :
    (s >>= f).Orderly Q r ↔ s.Orderly (fun r a => (f a).Orderly Q r) r := by
  show (s.bind f).Orderly Q r ↔ _
  induction s generalizing r with
  | done a => rfl
  | _ => simp [Script.bind, *]

@[simp] theorem orderly_ite (c : Prop) [Decidable c] (s t : Script α) :
    (if c then s else t).Orderly P r ↔ (c → s.Orderly P r) ∧ (¬c → t.Orderly P r) := by
  split <;> simp_all

@[simp] theorem orderly_pure (a : α) : (pure a : Script α).Orderly P r ↔ P r a := .rfl

@[simp] theorem orderly_fail (e : Failure) : (.fail e : Script α).Orderly P r ↔ r.fails = true := .rfl

@[simp] theorem orderly_abort (text : Bytes) : (.abort text : Script α).Orderly P r ↔ r.fails = true := .rfl

@[simp] theorem orderly_refuse (text : Bytes) : (refuse text : Script α).Orderly P r ↔ r.fails = true := .rfl

@[simp] theorem orderly_ofExcept (x : Except Failure α) :
    (ofExcept x).Orderly P r ↔ (∀ a, x = .ok a → P r a) ∧ ∀ e, x = .error e → r.fails = true := by
  cases x <;> simp [ofExcept]

@[simp] theorem orderly_ofRead (x : Except Argument.ReadError α) :
    (ofRead x).Orderly P r ↔ (∀ a, x = .ok a → P r a) ∧ ∀ e, x = .error e → r.fails = true := by
  cases x <;> simp [ofRead]

end Rules

section Single
variable (P : Rights → Unit → Prop) (r : Rights)

@[simp] theorem orderly_emits (instrs : List Instr) : (emits instrs).Orderly P r ↔ P r () := .rfl

@[simp] theorem orderly_text (s : Bytes) : (text s).Orderly P r ↔ P r () := .rfl

@[simp] theorem orderly_label (P : Rights → Nat → Prop) : label.Orderly P r ↔ ∀ l, P r.committed l := .rfl

@[simp] theorem orderly_data? (key : Bytes) (P : Rights → Option Value → Prop) :
    (data? key).Orderly P r ↔ ∀ v, P r v := .rfl

@[simp] theorem orderly_state? (key : Bytes) (P : Rights → Option Value → Prop) :
    (state? key).Orderly P r ↔ ∀ v, P r v := .rfl

@[simp] theorem orderly_keep (key : Bytes) (v : Value) : (keep key v).Orderly P r ↔ P r.committed () := .rfl

@[simp] theorem orderly_remember (key : Bytes) (v : Value) : (remember key v).Orderly P r ↔ P r.committed () := .rfl

@[simp] theorem orderly_addTo (name text : Bytes) : (addTo name text).Orderly P r ↔ P r () := by
  simp [addTo]

@[simp] theorem orderly_compiled (which : Selection) : (compiled which).Orderly P r ↔
    which = .regular ∧ r.compiles = true ∧ P { r.committed with compiles := false } () := .rfl

@[simp] theorem orderly_chained :
    chained.Orderly P r ↔ r.chains = true ∧ P { r.committed with chains := false } () := .rfl

@[simp] theorem orderly_literal (which : Selection) (P : Rights → Bytes → Prop) : (literal which).Orderly P r ↔
    which = .regular ∧ r.compiles = true ∧ r.fails = true ∧ ∀ text, P { r with compiles := false } text := by
  simp only [literal, Orderly, orderly_ofExcept]
  refine and_congr_right fun _ => and_congr_right fun _ => ⟨fun h => ?_, fun h answer => ?_⟩
  · exact ⟨(h (.error .canceled)).2 .canceled rfl, fun text => (h (.ok text)).1 text rfl⟩
  · exact ⟨fun text _ => h.2 text, fun _ _ => h.1⟩

end Single

end Script

namespace Standard
open Script

section
variable {P : Rights → Int → Prop} {r : Rights}

@[simp] theorem orderly_keptLabel (key : Bytes) : (keptLabel key).Orderly P r ↔ ∀ v, P r (labelOf v) := by
  simp only [keptLabel, orderly_bind, orderly_data?]
  refine forall_congr' fun v => ?_
  cases v with
  | none => rfl
  | some v => cases v <;> rfl

@[simp] theorem orderly_checkIdentifier (what name : Bytes) (P : Rights → Unit → Prop) :
    (checkIdentifier what name).Orderly P r ↔
      (isIdentifier name = true → P r ()) ∧ (¬isIdentifier name = true → r.fails = true) := by
  simp [checkIdentifier]

@[simp] theorem orderly_componentDepth : componentDepth.Orderly P r ↔ ∀ v, P r (labelOf v) := by
  simp only [componentDepth, orderly_bind, Script.orderly_state?]
  refine forall_congr' fun v => ?_
  cases v with
  | none => rfl
  | some v => cases v <;> rfl

@[simp] theorem orderly_addAsset (channel text : Bytes) (P : Rights → Unit → Prop) :
    (addAsset channel text).Orderly P r ↔ P r () := by
  simp [addAsset]

theorem orderly_stackNames {P : Rights → Bindings → Prop} (hfails : r.fails = true) (h : ∀ names, P r names) :
    stackNames.Orderly P r := by
  simp only [stackNames, orderly_bind, Script.orderly_state?]
  rintro (_ | v)
  · exact hfails
  · cases v <;> first | exact h _ | exact hfails

end

end Standard

end Stencil.Directive

namespace Stencil.Compile

open Stencil.Directive Stencil.Directive.Standard
open Stencil.Directive.Script (Rights)
open Stencil.Markup (Tag)

/-- The life of a directive fails before it changes anything that lasts, and does not depend on the rest of the
template. -/
structure Orderly (d : Definition) : Prop where
  life : ∀ tag owner unit, (lifeScript d tag owner unit).Orderly (fun _ _ => True) {}
  alone : ∀ tag owner unit unit', lifeScript d tag owner unit' = lifeScript d tag owner unit

/-- The arguments of a use are read by the parameters of the directive. -/
theorem schema_of_read {raw : Bytes} {schema : Argument.Schema} {args : Argument.Arguments}
    (h : Argument.read raw schema = .ok args) : args.schema = schema := by
  simp only [Argument.read, bind, Except.bind] at h
  split at h
  · cases h
  · split at h
    · split at h
      · cases h
      · split at h
        · cases h
        · cases h
          rfl
    · cases h
      rfl

/-- A parameter that a directive has can be read as a text. -/
theorem string_of_schema {args : Argument.Arguments} {name : Bytes} (h : args.schema.any fun p => p.name == name)
    (e : Argument.ReadError) : args.string name ≠ .error e := by
  unfold Argument.Arguments.string Argument.Arguments.param
  cases hfind : args.schema.find? fun p => p.name == name with
  | none => exact absurd h (by simpa using hfind)
  | some p =>
    simp only [bind, Except.bind]
    split
    · split <;> exact nofun
    · exact nofun

theorem orderly_of_hooks {d : Definition}
    (hlife : ∀ call : Call, call.args.schema = d.params → (hooksScript d call).Orderly (fun _ _ => True) {})
    (halone : ∀ tag args owner unit unit',
      hooksScript d { tag, args, owner, unit := unit' } = hooksScript d { tag, args, owner, unit }) : Orderly d := by
  refine ⟨fun tag owner unit => ?_, fun tag owner unit unit' => ?_⟩
  · unfold lifeScript
    split
    · rfl
    · rename_i args hargs
      exact hlife _ (schema_of_read hargs)
  · unfold lifeScript
    cases Argument.read tag.expr d.params with
    | error e => rfl
    | ok args => exact halone tag args owner unit unit'

attribute [local simp] hooksScript hookScript childrenScript Rights.committed

theorem orderly_of_mem_plain {d : Definition}
    (hd : d ∈ [emptyPart, ifDirective, elseifPart, elsePart, switchDirective, casePart, defaultPart, eachDirective,
      setDirective, yieldDirective, clientDirective, styleDirective]) : Orderly d := by
  simp only [List.mem_cons, List.not_mem_nil, or_false] at hd
  rcases hd with rfl | rfl | rfl | rfl | rfl | rfl | rfl | rfl | rfl | rfl | rfl | rfl
  all_goals refine orderly_of_hooks (fun call _ => ?_) fun _ _ _ _ _ => rfl
  · simp [emptyPart]
  · simp [ifDirective]
  · simp [elseifPart]
  · simp [elsePart]
  · simp [switchDirective]
  · simp [casePart]
  · simp [defaultPart]
  · simp [eachDirective]
  · simp [setDirective]
  · simp [yieldDirective]
  · simp [clientDirective]
  · simp [styleDirective]

/-- A name is a text, as it was when the arguments were read. -/
theorem string_of_nameParam {args : Argument.Arguments} {description : Bytes} (h : args.schema = nameParam description)
    (e : Argument.ReadError) : args.string "name" ≠ .error e :=
  string_of_schema (by rw [h]; rfl) e

theorem orderly_section : Orderly sectionDirective := by
  refine orderly_of_hooks (fun call hschema => ?_) fun _ _ _ _ _ => rfl
  simp [sectionDirective, string_of_nameParam hschema]

theorem orderly_push : Orderly pushDirective := by
  refine orderly_of_hooks (fun call hschema => ?_) fun _ _ _ _ _ => rfl
  simp [pushDirective, string_of_nameParam hschema]

theorem orderly_slot : Orderly slotDirective := by
  refine orderly_of_hooks (fun call hschema => ?_) fun _ _ _ _ _ => rfl
  simp [slotDirective, string_of_nameParam hschema]

theorem orderly_component : Orderly componentDirective := by
  refine orderly_of_hooks (fun call _ => ?_) fun _ _ _ _ _ => rfl
  simp [componentDirective, Script.Orderly]

theorem orderly_extends : Orderly extendsDirective := by
  refine orderly_of_hooks (fun call _ => ?_) fun _ _ _ _ _ => rfl
  simp only [extendsDirective, hooksScript, hookScript, childrenScript, Script.orderly_bind,
    Script.orderly_pure, Script.orderly_ofRead, Script.orderly_state?]
  refine ⟨fun path _ => ?_, fun _ _ => trivial⟩
  rintro (_ | previous) <;> simp

theorem orderly_stack : Orderly stackDirective := by
  refine orderly_of_hooks (fun call _ => ?_) fun _ _ _ _ _ => rfl
  simp only [stackDirective, hooksScript, hookScript, childrenScript, Script.orderly_bind,
    Script.orderly_pure, Script.orderly_ofRead]
  refine ⟨fun name _ => orderly_stackNames rfl fun names => ?_, fun _ _ => trivial⟩
  simp

theorem orderly_include : Orderly includeDirective := by
  refine orderly_of_hooks (fun call _ => ?_) fun _ _ _ _ _ => rfl
  simp only [includeDirective, hooksScript, hookScript, childrenScript, Script.orderly_bind,
    Script.orderly_pure, Script.orderly_ofRead]
  refine ⟨fun path _ => ⟨fun fallback _ => ?_, fun _ _ => trivial⟩, fun _ _ => trivial⟩
  rintro (e | src)
  · cases fallback <;> simp
  · simp [Script.Orderly]

/-- Every standard directive is orderly, and so are the parts of its chain; parts have no parts. -/
theorem orderly_of_mem_all {d : Definition} (hd : d ∈ all) : Orderly d ∧ ∀ p ∈ d.parts, Orderly p ∧ p.parts = [] := by
  have hnone {d : Definition} (hparts : d.parts = []) : ∀ p ∈ d.parts, Orderly p ∧ p.parts = [] := by simp [hparts]
  simp only [all, List.mem_cons, List.not_mem_nil, or_false] at hd
  rcases hd with rfl | rfl | rfl | rfl | rfl | rfl | rfl | rfl | rfl | rfl | rfl | rfl | rfl | rfl
  · refine ⟨orderly_of_mem_plain (by simp), ?_⟩
    simpa [ifDirective] using ⟨⟨orderly_of_mem_plain (by simp), rfl⟩, orderly_of_mem_plain (by simp), rfl⟩
  · refine ⟨orderly_of_mem_plain (by simp), ?_⟩
    simpa [switchDirective] using ⟨⟨orderly_of_mem_plain (by simp), rfl⟩, orderly_of_mem_plain (by simp), rfl⟩
  · refine ⟨orderly_of_mem_plain (by simp), ?_⟩
    simpa [eachDirective] using ⟨orderly_of_mem_plain (by simp), rfl⟩
  · exact ⟨orderly_of_mem_plain (by simp), hnone rfl⟩
  · exact ⟨orderly_include, hnone rfl⟩
  · exact ⟨orderly_extends, hnone rfl⟩
  · exact ⟨orderly_section, hnone rfl⟩
  · exact ⟨orderly_of_mem_plain (by simp), hnone rfl⟩
  · exact ⟨orderly_push, hnone rfl⟩
  · exact ⟨orderly_stack, hnone rfl⟩
  · exact ⟨orderly_component, hnone rfl⟩
  · exact ⟨orderly_slot, hnone rfl⟩
  · exact ⟨orderly_of_mem_plain (by simp), hnone rfl⟩
  · exact ⟨orderly_of_mem_plain (by simp), hnone rfl⟩

end Stencil.Compile
