import Stencil.Proofs.Compile.Moments
import Stencil.Proofs.Directive.Lookup

/-! # What hooks may ask for

Restrictions on the requests of scripts: which children they compile, and which sources they include (`Script.Asks`).
A directive is restricted together with all parts below it, a registry together with everything that it finds. -/

namespace Stencil.Directive

section
variable (compiles : Selection → Prop) (finds : Bytes → Bytes → Prop) {α β : Type}

/-- Children are compiled as allowed. A source is included only if it is known to be found under its path; one that is
resolved is. -/
def Script.Asks : Script α → Prop
  | .done _ => True
  | .fail _ => True
  | .abort _ => True
  | .emit _ _ next => next.Asks
  | .newLabel next => ∀ l, (next l).Asks
  | .add _ next => next.Asks
  | .loader next => ∀ name, (next name).Asks
  | .useLoader _ next => next.Asks
  | .compile which next => compiles which ∧ ∀ r, (next r).Asks
  | .chain next => ∀ r, (next r).Asks
  | .literalText _ next => ∀ r, (next r).Asks
  | .resolve path next => ∀ r, (∀ src, r = .ok src → finds path src) → (next r).Asks
  | .embed path src _ next => finds path src ∧ ∀ r, (next r).Asks
  | .getState _ next => ∀ v, (next v).Asks
  | .setState _ _ next => next.Asks
  | .getData _ next => ∀ v, (next v).Asks
  | .setData _ _ next => next.Asks
  | .log _ next => next.Asks
  | .cancel next => next.Asks

/-- The restrictions hold for all hooks of a node. -/
structure Definition.Asks (d : Definition) : Prop where
  onInit : ∀ f ∈ d.onInit, ∀ call, (f call).Asks compiles finds
  onParams : ∀ f ∈ d.onParams, ∀ call, (f call).Asks compiles finds
  onChildren : ∀ f ∈ d.onChildren, ∀ call, (f call).Asks compiles finds
  onEnd : ∀ f ∈ d.onEnd, ∀ call, (f call).Asks compiles finds

/-- They hold for the directive and for the parts below it at any depth. -/
inductive Definition.AsksDeep : Definition → Prop
  | intro {d : Definition} (own : d.Asks compiles finds) (parts : ∀ p ∈ d.parts, AsksDeep p) : AsksDeep d

structure Registry.Asks (r : Registry) : Prop where
  definitions : ∀ d ∈ r.definitions, d.AsksDeep compiles finds
  lookup : ∀ name d, r.lookup name = some d → d.AsksDeep compiles finds
  onInitFile : ∀ d ∈ r.definitions, ∀ f ∈ d.onInitFile, ∀ u, (f u).Asks compiles finds
  onEndFile : ∀ d ∈ r.definitions, ∀ f ∈ d.onEndFile, ∀ u, (f u).Asks compiles finds

end

section
variable {compiles : Selection → Prop} {finds : Bytes → Bytes → Prop} {α β : Type}

theorem Definition.AsksDeep.own {d : Definition} (h : d.AsksDeep compiles finds) : d.Asks compiles finds := by
  cases h
  assumption

theorem Definition.AsksDeep.part {d p : Definition} {name : Bytes} (h : d.AsksDeep compiles finds)
    (hp : d.part? name = some p) : p.AsksDeep compiles finds := by
  obtain ⟨-, hparts⟩ := h
  exact hparts p (List.mem_of_find?_eq_some hp)

namespace Script

theorem Asks.bind {s : Script α} {f : α → Script β} (hs : s.Asks compiles finds) (hf : ∀ a, (f a).Asks compiles finds) :
    (s >>= f).Asks compiles finds := by
  change (s.bind f).Asks compiles finds
  induction s with
  | done a => exact hf a
  | fail e | abort text => trivial
  | emit _ _ next ih | add _ next ih | useLoader _ next ih | setState _ _ next ih | setData _ _ next ih | log _ next ih
  | cancel next ih => exact ih hs
  | newLabel next ih | loader next ih | chain next ih | literalText _ next ih | getState _ next ih
  | getData _ next ih => exact fun r => ih r (hs r)
  | compile _ next ih | embed _ _ _ next ih => exact ⟨hs.1, fun r => ih r (hs.2 r)⟩
  | resolve _ next ih => exact fun r hr => ih r (hs r hr)

theorem asks_pure (a : α) : (pure a : Script α).Asks compiles finds := trivial

theorem asks_ofExcept (r : Except Failure α) : (ofExcept r).Asks compiles finds := by cases r <;> trivial

theorem asks_ofRead (r : Except Argument.ReadError α) : (ofRead r).Asks compiles finds := by cases r <;> trivial

theorem asks_compiled {which : Selection} (h : compiles which) : (compiled which).Asks compiles finds :=
  ⟨h, asks_ofExcept⟩

theorem asks_chained : chained.Asks compiles finds := asks_ofExcept

/-- A script that asks for no other template may compile whatever it likes. -/
theorem Local.asks {allowed : Instr → Prop} {P : α → Prop} {s : Script α} (h : s.Local allowed P) :
    s.Asks (fun _ => True) finds := by
  induction s with
  | done a | fail e | abort text => trivial
  | emit _ _ next ih => exact ih h.2
  | add _ next ih | useLoader _ next ih | setState _ _ next ih | setData _ _ next ih | log _ next ih
  | cancel next ih => exact ih h
  | newLabel next ih | loader next ih | chain next ih | literalText _ next ih | getState _ next ih
  | getData _ next ih => exact fun r => ih r (h r)
  | compile which next ih => exact ⟨trivial, fun r => ih r (h r)⟩
  | resolve path next ih | embed path src bindings next ih => exact h.elim

end Script

/-! ### The standard directives -/

namespace Standard
open Script

theorem asks_include : includeDirective.Asks (fun _ => True) finds := by
  constructor <;> rintro f ⟨⟩ call
  refine (asks_ofRead _).bind fun path => (asks_ofRead _).bind fun fallback => ?_
  rintro (e | src) hfound
  · dsimp only
    split <;> trivial
  · exact ⟨hfound src rfl, fun r => asks_ofExcept r⟩

/-- Only includes ask for other templates, for what was found under the path. -/
theorem asks_registry : registry.Asks (fun _ => True) finds := by
  have hlocal {d : Definition} (h : d.Local Defers) : d.Asks (fun _ => True) finds :=
    ⟨fun f hf call => (h.onInit f hf call).asks, fun f hf call => (h.onParams f hf call).asks,
      fun f hf call => (h.onChildren f hf call).asks, fun f hf call => (h.onEnd f hf call).asks⟩
  have hdeep : ∀ d ∈ all, d.AsksDeep (fun _ => True) finds := by
    intro d hd
    by_cases hinclude : d = includeDirective
    · subst hinclude
      exact .intro asks_include nofun
    · obtain ⟨hd, hparts⟩ := local_of_mem_all hd hinclude
      refine .intro (hlocal hd) fun p hp => ?_
      obtain ⟨hp, hnone⟩ := hparts p hp
      exact .intro (hlocal hp) (by simp [hnone])
  exact ⟨hdeep, fun name d hlookup => hdeep d (mem_all_of_lookup hlookup).1,
    fun d hd f hf u => ((local_fileHooks hd).1 f hf u).asks, fun d hd f hf u => ((local_fileHooks hd).2 f hf u).asks⟩

end Standard

end

end Stencil.Directive

namespace Stencil.Compile

open Stencil.Directive
open Stencil.Markup (Tag)

variable {compiles : Selection → Prop} {finds : Bytes → Bytes → Prop}

theorem asks_fileHook {r : Registry} (h : r.Asks compiles finds) {part : Section} {d : Definition} (hd : d ∈ r.definitions)
    {f : UnitInfo → Script Unit} (hf : fileHook part d = some f) (u : UnitInfo) : (f u).Asks compiles finds := by
  cases part with
  | pre => exact h.onInitFile d hd f hf u
  | body => cases hf
  | post => exact h.onEndFile d hd f hf u

theorem asks_hookScript {hook : Option (Call → Script Unit)} (h : ∀ f ∈ hook, ∀ call, (f call).Asks compiles finds)
    (call : Call) : (hookScript hook call).Asks compiles finds := by
  cases hook with
  | none => exact Script.asks_pure ()
  | some f => exact h f rfl call

/-- A directive without a hook for its children compiles the regular ones. -/
theorem asks_lifeScript {d : Definition} (h : d.Asks compiles finds) (hregular : compiles .regular) (tag : Tag)
    (owner : Bytes) (unit : UnitInfo) : (lifeScript d tag owner unit).Asks compiles finds := by
  unfold lifeScript
  split
  · trivial
  · rename_i args hargs
    have hchildren : (childrenScript d ⟨tag, args, owner, unit⟩).Asks compiles finds := by
      unfold childrenScript
      split
      · rename_i f hf
        exact h.onChildren f hf _
      · exact (Script.asks_compiled hregular).bind fun _ => Script.asks_chained
    exact (asks_hookScript h.onInit _).bind fun _ => (asks_hookScript h.onParams _).bind fun _ =>
      hchildren.bind fun _ => asks_hookScript h.onEnd _

/-- A request that the state answers leaves the rest of a script as restricted, if what is resolved is known to be
found. -/
theorem asks_reply {env : Env} {st : State} (hfinds : ∀ path src, env.resolve st path = .ok src → finds path src)
    (children : List Markup.Node) {s : Script Unit} (h : s.Asks compiles finds) :
    (env.reply children s st).1.Asks compiles finds := by
  cases s with
  | done a | fail e | abort text => exact h
  | compile _ next | chain next | embed _ _ _ next => exact h
  | emit _ _ next | add _ next | useLoader _ next | setState _ _ next | setData _ _ next | log _ next
  | cancel next => exact h
  | newLabel next | loader next | literalText _ next | getState _ next | getData _ next => exact h _
  | resolve path next => exact h _ (hfinds path)

end Stencil.Compile
