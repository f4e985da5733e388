import Stencil.Proofs.Compile.Remaining
import Stencil.Proofs.Engine.Termination
import Stencil.Proofs.Render.Comments

/-! # What a failed directive costs

When directives of a text fail, the text shows what its tree shows without them (`renderText_remaining`), unless a
layout is lost with them: a template that uses a layout is captured even when no layout was found, and then shows
nothing at all. -/

namespace Stencil

open Compile (FromTree Template compileSource fills generate unitInfo)
open Render (Runs mark)
open Stencil.Markup (Node)

/-! ### Trees -/

namespace Compile

open Directive.Standard (registry)
open Statement (codeAll AllWellFormed)

/-- A tree compiles to a program of statements; code was generated, and nothing was cancelled. -/
theorem exists_program (options : Options) (path : Bytes) (nodes : List Node) :
    ∃ t ss, (generate registry options path false nodes).result = .ok t ∧
      (generate registry options path false nodes).canceled = false ∧
      (generate registry options path false nodes).seals = true ∧
      t.program = .ok ⟨t.path, mergeLiterals t.instrs⟩ ∧ t.instrs = codeAll ss ∧ AllWellFormed none ss ∧
      (Program.marked (codeAll ss)).Nodup := by
  obtain ⟨t, ss, hresult, hrunning, -, hcode, hwell, hnodup⟩ := exists_statements_generate options path nodes
  have hstructured : Program.Structured t.instrs := hcode ▸ Program.structured_codeAll hwell hnodup
  refine ⟨t, ss, hresult, hrunning, ?_, (structured_mergeLiterals hstructured).link t.path, hcode, hwell, hnodup⟩
  rw [generate_eq_outcome]
  rcases compileNodes embedder (options.env registry path nodes) .all nodes (options.env registry path nodes).start
    with ⟨e | u, st⟩ <;> rfl

/-- Runs of the program of a tree show what runs of the program without the failed directives show. -/
theorem exists_outputs_remaining (options : Options) (path src : Bytes) (nodes : List Node)
    (hparse : Markup.parse registry options.parse path src = .ok nodes) :
    ∃ t p, (generate registry options path false nodes).result = .ok t ∧ t.program = .ok p ∧
      ((unitInfo path (t.remaining nodes)).uses "extends" = (unitInfo path nodes).uses "extends" →
        ∃ t' p', (generate registry options path false (t.remaining nodes)).result = .ok t' ∧ t'.program = .ok p' ∧
          ∀ host m, Runs FromTree host m → ∃ o o', Render.Ends host p { state := m } o ∧
            Render.Ends host p' { state := m } o' ∧
            ((mark ∈ o'.output → fills (unitInfo path (t.remaining nodes)) = fills (unitInfo path nodes)) →
              o.output = o'.output)) := by
  obtain ⟨t, ss, hresult, -, -, hprogram, hcode, hwell, hnodup⟩ := exists_program options path nodes
  refine ⟨t, _, hresult, hprogram, fun hextends => ?_⟩
  obtain ⟨_, h, hremaining⟩ := uncommented_generate options path src nodes hparse
  obtain rfl : t = _ := Except.ok.inj (hresult.symm.trans h)
  obtain ⟨t', extra, hresult', hextra, hsame⟩ := hremaining hextends
  obtain ⟨_, ss', h', -, -, hprogram', hcode', hwell', hnodup'⟩ := exists_program options path (t.remaining nodes)
  obtain rfl : t' = _ := Except.ok.inj (hresult'.symm.trans h')
  refine ⟨t', _, hresult', hprogram', fun host m hm => ?_⟩
  rw [hcode, hcode'] at hsame ⊢
  obtain ⟨o, o', hends, hends', houtput⟩ := Render.exists_outputs (fun _ => isCode_of_fromTree) hm t.path t'.path hwell
    hwell' hnodup hnodup' (hextra.imp_right And.left) hsame
  refine ⟨o, o', hends, hends', fun hmark => houtput fun hmem => ?_⟩
  refine hextra.resolve_right fun ⟨_, hfills, hfills'⟩ => ?_
  have hfalse := hmark hmem
  rw [hfills, hfills'] at hfalse
  cases hfalse

end Compile

/-! ### Engines -/

namespace Engine

/-- The session in which a text is rendered once it is compiled. -/
def compiledSession (e : Engine) : Session := { loader := e.loader, isSealed := true }

/-- What a program shows: nothing when its run fails. -/
def shown (e : Engine) (name : Bytes) (p : Program) (data : Bindings) : Bytes :=
  (e.runProgram name p data e.compiledSession).1.toOption.getD []

theorem shown_eq (e : Engine) (name : Bytes) (p : Program) (data : Bindings) :
    e.shown name p data = (Render.run e.host p (.root data e.compiledSession)).output := by
  rw [shown, runProgram, Render.State.root]
  rcases Render.run e.host p { top := { vars := data }, shared := { session := e.compiledSession } } with ⟨f | u, m⟩ <;>
    rfl

/-- With steps enough a program shows what its run comes to. -/
theorem shown_of_ends (e : Engine) (name : Bytes) {p : Program} {data : Bindings} {o : Render.Outcome}
    (h : Render.Ends e.host p { state := .root data e.compiledSession } o) :
    ∃ n, ∀ limit, n ≤ limit → { e with stepLimit := limit }.shown name p data = o.output := by
  obtain ⟨n, hn⟩ := Render.exec_of_ends h
  refine ⟨n, fun limit hlimit => ?_⟩
  have hrun : Render.run { e with stepLimit := limit }.host p (.root data e.compiledSession) = o :=
    (Render.exec_stepLimit e.host limit limit p _).trans (hn limit hlimit)
  exact (shown_eq _ name p data).trans (congrArg _ hrun)

/-- A text shows what its program shows. -/
theorem renderText_shown (e : Engine) (name src : Bytes) {c : Compile.Compilation} {t : Template} {p : Program}
    (hc : compileSource e.registry e.compileOptions name false src = c) (hresult : c.result = .ok t)
    (hprogram : t.program = .ok p) (hrunning : c.canceled = false) (hseals : c.seals = true) (data : Bindings) :
    (e.renderText name src data false).1 = e.shown name p data := by
  subst hc
  unfold renderText
  simp only [hresult, hprogram, hrunning, hseals, Bool.or_true]
  unfold shown compiledSession
  rcases e.runProgram name p data { loader := e.loader, isSealed := true } with ⟨f | out, after⟩ <;> rfl

theorem runs_compiledSession {e : Engine} (he : e.Standard) (data : Bindings) :
    Runs FromTree e.host (.root data e.compiledSession) := by
  refine ⟨fun p hp => (fromTemplate_of_compiles he hp).fromTree, ?_⟩
  rintro p ⟨key, hp⟩
  exact (he.kept _ hp).fromTree

/-- **A failed directive costs only itself.** A text with directives that fail shows what the program of its tree
without them shows, whatever the data, when there are steps enough; a text that uses a layout must still do so without
them. Text that is left with marks of placeholders in it shows the same when filling in is not only asked for by a
directive that failed. -/
theorem renderText_remaining (e : Engine) (he : e.Standard) (name src : Bytes) (nodes : List Node)
    (hparse : Markup.parse e.registry e.options.parse name src = .ok nodes) :
    ∃ t, (generate e.registry e.compileOptions name false nodes).result = .ok t ∧
      ((unitInfo name (t.remaining nodes)).uses "extends" = (unitInfo name nodes).uses "extends" →
        ∃ t' p, (generate e.registry e.compileOptions name false (t.remaining nodes)).result = .ok t' ∧
          t'.program = .ok p ∧ ∀ data, ∃ n, ∀ limit, n ≤ limit →
            (mark ∈ { e with stepLimit := limit }.shown name p data →
              fills (unitInfo name (t.remaining nodes)) = fills (unitInfo name nodes)) →
            ({ e with stepLimit := limit }.renderText name src data false).1 =
              { e with stepLimit := limit }.shown name p data) := by
  have hgenerate (nodes : List Node) : generate e.registry e.compileOptions name false nodes =
      generate Directive.Standard.registry e.compileOptions name false nodes := by
    rw [Compile.eq_sealedAs he.registry, Compile.generate_sealed]
  have hparse' : Markup.parse Directive.Standard.registry e.compileOptions.parse name src = .ok nodes := by
    rw [Compile.eq_sealedAs he.registry, Compile.parse_sealed] at hparse
    exact hparse
  have hsource : compileSource e.registry e.compileOptions name false src =
      generate Directive.Standard.registry e.compileOptions name false nodes := by
    rw [Compile.eq_sealedAs he.registry, Compile.compileSource_sealed, compileSource, hparse']
  simp only [hgenerate]
  obtain ⟨t, p, hresult, hprogram, hremaining⟩ := Compile.exists_outputs_remaining e.compileOptions name src nodes hparse'
  refine ⟨t, hresult, fun hextends => ?_⟩
  obtain ⟨t', p', hresult', hprogram', hruns⟩ := hremaining hextends
  refine ⟨t', p', hresult', hprogram', fun data => ?_⟩
  obtain ⟨o, o', hends, hends', houtput⟩ := hruns e.host _ (runs_compiledSession he data)
  obtain ⟨n, hn⟩ := e.shown_of_ends name hends
  obtain ⟨n', hn'⟩ := e.shown_of_ends name hends'
  obtain ⟨_, _, -, hrunning, hseals, -⟩ := Compile.exists_program e.compileOptions name nodes
  refine ⟨n + n', fun limit hlimit hmark => ?_⟩
  rw [renderText_shown { e with stepLimit := limit } name src hsource hresult hprogram hrunning hseals,
    hn limit (by omega), hn' limit (by omega)]
  exact houtput (hn' limit (by omega) ▸ hmark)

/-- An include of a template that is missing, a condition without an expression, and a second layout. -/
def failingText : Bytes :=
  "@extends('main')@section('body')a@include('gone')@if(x)b@elseif()c@end@end@extends('other')"

/-- Three directives fail; the layout that was found first stays. -/
theorem renderText_remaining_text : ∃ nodes t, pageEngine.Standard ∧
    Markup.parse pageEngine.registry pageEngine.options.parse "text" failingText = .ok nodes ∧
    (generate pageEngine.registry pageEngine.compileOptions "text" false nodes).result = .ok t ∧ t.errors.length = 3 ∧
    (unitInfo "text" (t.remaining nodes)).uses "extends" = (unitInfo "text" nodes).uses "extends" ∧
    fills (unitInfo "text" (t.remaining nodes)) = fills (unitInfo "text" nodes) ∧
    ∃ t' p, (generate pageEngine.registry pageEngine.compileOptions "text" false (t.remaining nodes)).result = .ok t' ∧
      t'.program = .ok p ∧ ∀ data, ∃ n, ∀ limit, n ≤ limit →
        ({ pageEngine with stepLimit := limit }.renderText "text" failingText data false).1 =
          { pageEngine with stepLimit := limit }.shown "text" p data := by
  have hstandard : pageEngine.Standard := ⟨rfl, nofun⟩
  have hread : ((Markup.parse pageEngine.registry pageEngine.options.parse "text" failingText).toOption.any fun nodes =>
      (generate pageEngine.registry pageEngine.compileOptions "text" false nodes).result.toOption.any fun t =>
        decide (t.errors.length = 3 ∧
          (unitInfo "text" (t.remaining nodes)).uses "extends" = (unitInfo "text" nodes).uses "extends" ∧
          fills (unitInfo "text" (t.remaining nodes)) = fills (unitInfo "text" nodes))) = true := by decide +kernel
  obtain ⟨nodes, hnodes, hread⟩ := Render.exists_ok_of_any hread
  obtain ⟨t, ht, hread⟩ := Render.exists_ok_of_any hread
  obtain ⟨herrors, hextends, hfills⟩ := of_decide_eq_true hread
  obtain ⟨_, h, hremaining⟩ := renderText_remaining pageEngine hstandard "text" failingText nodes hnodes
  obtain rfl : t = _ := Except.ok.inj (ht.symm.trans h)
  obtain ⟨t', p, hresult, hprogram, hshown⟩ := hremaining hextends
  refine ⟨nodes, t, hstandard, hnodes, ht, herrors, hextends, hfills, t', p, hresult, hprogram, fun data => ?_⟩
  obtain ⟨n, hn⟩ := hshown data
  exact ⟨n, fun limit hlimit => hn limit hlimit fun _ => hfills⟩

/-- A text whose only layout is not found shows nothing, and without the directive it shows what is left. -/
theorem not_renderText_remaining : ∃ nodes t t' p, pageEngine.Standard ∧
    Markup.parse pageEngine.registry pageEngine.options.parse "t" "@extends()a" = .ok nodes ∧
    (generate pageEngine.registry pageEngine.compileOptions "t" false nodes).result = .ok t ∧
    (generate pageEngine.registry pageEngine.compileOptions "t" false (t.remaining nodes)).result = .ok t' ∧
    t'.program = .ok p ∧ (pageEngine.renderText "t" "@extends()a" [] false).1 = [] ∧
    (pageEngine.renderText "t" "@extends()a" [] false).2.1.map Failure.message =
      some (Failure.diagnostics t.errors).message ∧
    pageEngine.shown "t" p [] = "a" := by
  have hread : ((Markup.parse pageEngine.registry pageEngine.options.parse "t" "@extends()a").toOption.any fun nodes =>
      (generate pageEngine.registry pageEngine.compileOptions "t" false nodes).result.toOption.any fun t =>
        decide ((pageEngine.renderText "t" "@extends()a" [] false).2.1.map Failure.message =
      some (Failure.diagnostics t.errors).message) &&
        (generate pageEngine.registry pageEngine.compileOptions "t" false (t.remaining nodes)).result.toOption.any fun t' =>
          t'.program.toOption.any fun p => decide (pageEngine.shown "t" p [] = ("a" : Bytes))) = true := by
    decide +kernel
  have hnothing : (pageEngine.renderText "t" "@extends()a" [] false).1 = [] := by decide +kernel
  obtain ⟨nodes, hnodes, hread⟩ := Render.exists_ok_of_any hread
  obtain ⟨t, ht, hread⟩ := Render.exists_ok_of_any hread
  obtain ⟨herrors, hread⟩ := (Bool.and_eq_true _ _).mp hread
  obtain ⟨t', ht', hread⟩ := Render.exists_ok_of_any hread
  obtain ⟨p, hp, hread⟩ := Render.exists_ok_of_any hread
  exact ⟨nodes, t, t', p, ⟨rfl, nofun⟩, hnodes, ht, ht', hp, hnothing, of_decide_eq_true herrors, of_decide_eq_true hread⟩

end Engine

end Stencil
