import Stencil.Proofs.Control.Generation
import Stencil.Proofs.Engine.Failures
import Stencil.Proofs.Markup.Reading

/-! # Literal text

Text without anything that starts in it is read as one node, compiles to one instruction, and renders as itself
when its at signs are doubled (`renderText_doubled`): braces that open nothing, also one at the very end, and runs
of at signs included. -/

namespace Stencil

/-! ### Reading -/

namespace Markup

open Stencil.Directive

/-- Text at the end of a template may end with a brace. -/
theorem passes_lastText {value : Bytes} (hne : value ≠ []) (hescaped : Bytes.contains (opening true) value = false)
    (hraw : Bytes.contains (opening false) value = false) (e : Reader) (o : Outline) (before : Option UInt8)
    (offset : Nat) :
    ∃ span before', e.Passes (doubled value) [] offset o before (o.pushText value span) before' := by
  by_cases hlast : value.getLast? = some openBrace
  · obtain ⟨a, rfl⟩ := List.getLast?_eq_some_iff.mp hlast
    have hbrace (o : Outline) (before : Option UInt8) (offset : Nat) :
        ∃ span, e.Passes (doubled [openBrace]) [] offset o before (o.pushText [openBrace] span) (some openBrace) :=
      passes_text_piece (piece_brace (by rfl) (by rfl))
    by_cases ha : a = []
    · subst ha
      obtain ⟨span, h⟩ := hbrace o before offset
      exact ⟨span, _, h⟩
    have hnot {sep : Bytes} (h : Bytes.contains sep (a ++ [openBrace]) = false) : ¬ sep <:+: a ++ [openBrace] :=
      fun hsep => Bool.false_ne_true (h.symm.trans (Bytes.contains_iff.mpr hsep))
    have hinside {sep : Bytes} (h : Bytes.contains sep (a ++ [openBrace]) = false) : Bytes.contains sep a = false :=
      Bool.eq_false_iff.mpr fun hsep =>
        hnot h ((Bytes.contains_iff.mp hsep).trans (List.prefix_append a _).isInfix)
    have htext : IsText a := by
      refine ⟨ha, hinside hescaped, hinside hraw, fun hend => hnot hescaped ?_⟩
      obtain ⟨b, rfl⟩ := List.getLast?_eq_some_iff.mp hend
      exact ⟨b, [], by simp [opening]⟩
    have hboundary : isBoundary (doubled [openBrace] ++ []) := by
      unfold isBoundary
      decide
    obtain ⟨span, hfirst⟩ := passes_text htext hboundary e o before offset
    obtain ⟨span', hrest⟩ := hbrace (o.pushText a span) a.getLast? (offset + (doubled a).length)
    rw [pushText_pushText] at hrest
    rw [doubled_append]
    exact ⟨_, _, hfirst.trans hrest⟩
  · have hboundary : isBoundary [] := rfl
    obtain ⟨span, h⟩ := passes_text ⟨hne, hescaped, hraw, hlast⟩ hboundary e o before offset
    exact ⟨span, _, h⟩

/-- A template of text alone. -/
def textNodes (value : Bytes) (span : Span) : List Node := if value = [] then [] else [.text value span]

theorem parse_doubled {value : Bytes} (hescaped : Bytes.contains (opening true) value = false)
    (hraw : Bytes.contains (opening false) value = false) (r : Registry) (options : ParseOptions) (path : Bytes) :
    ∃ span, parse r options path (doubled value) = .ok (textNodes value span) := by
  by_cases hne : value = []
  · subst hne
    refine ⟨default, ?_⟩
    simp [parse, doubled, parseFrom, textNodes, Outline.nodes, Outline.closeAll]
  · obtain ⟨span, before', h⟩ := passes_lastText hne hescaped hraw
      ⟨r, options, path, .ofText (doubled value)⟩ {} none 0
    unfold Reader.Passes at h
    rw [List.append_nil, parseFrom.eq_1] at h
    refine ⟨span, ?_⟩
    rw [parse, h]
    simp [Outline.nodes, Outline.pushText, Outline.push, Outline.current, Outline.withCurrent, Outline.closeAll,
      textNodes, hne]

end Markup

/-! ### Compiling and running -/

open Compile (Template compileSource generate compileNodes)
open Stencil.Markup (Node textNodes)
open Render (Host mark)

namespace Compile

open Directive.Standard (registry)

/-- Text is added where it stands. -/
theorem compileNodes_textNodes (embed : Embedder) (env : Env) (value : Bytes) (span : Markup.Span) {st : State}
    (hst : st.canceled = false) (ns : List Node) :
    compileNodes embed env .all (textNodes value span ++ ns) st =
      compileNodes embed env .all ns (st.add env.part value) := by
  unfold textNodes
  split
  · rename_i hvalue
    subst hvalue
    rfl
  · simp [compileNodes, selects, hst, compileNode]

/-- Text alone compiles to one instruction, or to none. -/
theorem generate_textNodes (options : Options) (path value : Bytes) (span : Markup.Span) :
    ∃ t, (generate registry options path false (textNodes value span)).result = .ok t ∧ t.errors = [] ∧
      t.program = .ok ⟨path, if value = [] then [] else [.literal value]⟩ := by
  have hunhooked : Control.Unhooked (options.env registry path (textNodes value span)) := by
    have hnames : ∀ name ∈ (options.env registry path (textNodes value span)).unit.used, name ∈ ([] : List Bytes) := by
      intro name hname
      unfold textNodes at hname
      split at hname <;> exact hname
    exact Control.unhooked_of hnames fun _ _ => List.not_mem_nil
  have hresult := generate_result registry options path (textNodes value span)
  have htext (env : Env) {st : State} (hst : st.canceled = false) :
      compileNodes embedder env .all (textNodes value span) st = (.ok (), st.add env.part value) := by
    have hadd := compileNodes_textNodes embedder env value span hst []
    rwa [List.append_nil] at hadd
  rw [Control.start_eq hunhooked rfl, htext _ rfl, andThen, Control.finish_eq hunhooked rfl] at hresult
  refine ⟨_, hresult, rfl, ?_⟩
  by_cases hvalue : value = []
  · rw [hvalue]
    rfl
  · simp only [Template.program, Template.instrs, State.template, State.add, Output.add, hvalue, if_false, Options.env]
    rfl

end Compile

namespace Render

/-- A program that writes one text, or none, ends with that text. -/
theorem run_text (host : Host) (hsteps : 2 ≤ host.stepLimit) (name : Bytes) {value : Bytes} (hvalue : mark ∉ value)
    (data : Bindings) (session : Session) :
    run host ⟨name, if value = [] then [] else [.literal value]⟩ (.root data session) =
      (.ok (), { top := { vars := data, out := value }, shared := { session } }) := by
  obtain ⟨n, hn⟩ : ∃ n, host.stepLimit = n + 2 := ⟨host.stepLimit - 2, by omega⟩
  have hfill (shared : Shared) : shared.fill maxPasses value = value := by simp [maxPasses, Shared.fill, hvalue]
  rw [run, hn]
  split
  · rename_i hnil
    subst hnil
    simp [exec, Frame.finish, State.resolve, State.root, State.isRoot, hfill]
  · simp [exec, Frame.finish, State.resolve, State.root, State.isRoot, hfill, step, Instr.literal, State.write,
      Scope.write]

end Render

namespace Engine

/-- Literal text renders as itself, whatever the name of the template and the data. The one instruction that it compiles
to and the end of the program are two steps. -/
theorem renderText_doubled (e : Engine) (he : e.registry.entries = Directive.Standard.registry.entries)
    (hsteps : 2 ≤ e.stepLimit) {value : Bytes} (hescaped : Bytes.contains (Markup.opening true) value = false)
    (hraw : Bytes.contains (Markup.opening false) value = false) (hmark : mark ∉ value) (name : Bytes)
    (data : Bindings) :
    (e.renderText name (Markup.doubled value) data false).1 = value ∧
      (e.renderText name (Markup.doubled value) data false).2.1 = none := by
  obtain ⟨span, hparse⟩ := Markup.parse_doubled hescaped hraw Directive.Standard.registry e.options.parse name
  obtain ⟨t, hresult, herrors, hprogram⟩ := Compile.generate_textNodes e.compileOptions name value span
  have hsource : (compileSource e.registry e.compileOptions name false (Markup.doubled value)).result = .ok t := by
    rw [Compile.eq_sealedAs he, Compile.compileSource_sealed, compileSource,
      show e.compileOptions.parse = e.options.parse from rfl, hparse]
    exact hresult
  have hrun (session : Session) := Render.run_text e.host hsteps name hmark data session
  unfold renderText runProgram
  unfold Render.State.root at hrun
  simp only [hsource, hprogram, herrors, hrun, if_true, and_self]

/-- A text with braces and at signs, at its edges too. -/
def edgeText : Bytes := "@\x7b@if(x)a@b.c@@end\x7b! \x7b"

theorem renderText_doubled_edges :
    pageEngine.registry.entries = Directive.Standard.registry.entries ∧ 2 ≤ pageEngine.stepLimit ∧
      Bytes.contains (Markup.opening true) edgeText = false ∧ Bytes.contains (Markup.opening false) edgeText = false ∧
      mark ∉ edgeText ∧ (pageEngine.renderText "t" (Markup.doubled edgeText) [] false).1 = edgeText ∧
      (pageEngine.renderText "t" (Markup.doubled edgeText) [] false).2.1 = none := by
  have hsteps : 2 ≤ pageEngine.stepLimit := by decide
  have hescaped : Bytes.contains (Markup.opening true) edgeText = false := by decide
  have hraw : Bytes.contains (Markup.opening false) edgeText = false := by decide
  have hmark : mark ∉ edgeText := by decide
  exact ⟨rfl, hsteps, hescaped, hraw, hmark, renderText_doubled pageEngine rfl hsteps hescaped hraw hmark "t" []⟩

end Engine

end Stencil
