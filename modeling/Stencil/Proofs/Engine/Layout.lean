import Stencil.Engine
import Stencil.Proofs.Compile.Placeholders
import Stencil.Proofs.Render.Deferral
import Stencil.Proofs.Render.Placements
import Stencil.Proofs.Render.Verbatim

/-! # Layouts, sections and stacks of an engine

Every program of an engine with the standard directives comes of a template, whether it was kept or is
compiled for a render. So placeholders are filled in only after all that a render does, and its output is what
was written, with every stack and section in the place of its placeholders (`render_filled`), however
templates extend, include and render one another. -/

namespace Stencil

open Compile (FromTemplate)
open Render (Event Record FilledAfter Runs maxPasses flat rootEvents)

/-! ### Programs of an engine -/

namespace Engine

/-- An engine with the standard directives, and the programs that it keeps. -/
structure Standard (e : Engine) : Prop where
  registry : e.registry.entries = Directive.Standard.registry.entries
  kept : ∀ entry ∈ e.loader.programs, FromTemplate entry.2

theorem fromTemplate_of_compileStep {e : Engine} (he : e.Standard) {path : Bytes} {canceled : Bool} {p : Program}
    (h : (e.compileStep path canceled).program = .ok p) : FromTemplate p := by
  unfold compileStep at h
  cases canceled with
  | true => cases h
  | false =>
    simp only [Bool.false_eq_true, if_false] at h
    split at h
    · cases h
    · rename_i src _
      cases hresult : (Compile.compileSource e.registry e.compileOptions path false src).result with
      | error f => simp [hresult, Except.bind] at h
      | ok t =>
        simp only [hresult, Except.bind, programOf] at h
        split at h
        · cases hprogram : t.program with
          | error f =>
            rw [hprogram] at h
            cases h
          | ok q =>
            rw [hprogram] at h
            cases h
            exact ⟨e.registry, e.compileOptions, path, src, t, he.registry, hresult, hprogram⟩
        · cases h

theorem fromTemplate_of_compiles {e : Engine} (he : e.Standard) {p : Program} (h : e.host.Compiles p) :
    FromTemplate p := by
  obtain ⟨compile, path, canceled, hcompile, hp⟩ := h
  cases hcompile
  exact fromTemplate_of_compileStep he hp

/-- What is loaded comes of a template, and a render that starts then comes to such programs only. -/
theorem fromTemplate_of_load {e : Engine} (he : e.Standard) {path : Bytes} {canceled : Bool} {p : Program} {s : Session}
    (h : (e.session canceled).load e.compileStep path = (.ok p, s)) (data : Bindings) :
    FromTemplate p ∧ Runs FromTemplate e.host (.root data s) := by
  obtain ⟨hprogram, hloaded⟩ := Render.load_programs (e.session canceled) e.compileStep path
  rw [h] at hprogram hloaded
  refine ⟨?_, fun q hq => fromTemplate_of_compiles he hq, ?_⟩
  · exact (hprogram p rfl).elim (fun hmem => he.kept _ hmem) (fromTemplate_of_compileStep he)
  · rintro q ⟨key, hmem⟩
    exact (hloaded _ hmem).elim (he.kept _) (fromTemplate_of_compileStep he)

/-! ### Renders -/

/-- What the render of a template does, when its program can be loaded. -/
def trace (e : Engine) (path : Bytes) (data : Bindings) (canceled : Bool) : List Event :=
  match (e.session canceled).load e.compileStep path with
  | (.error _, _) => []
  | (.ok p, s) => rootEvents e.host p data s

/-- What a render comes to before any placeholder is filled in. -/
def unresolved (e : Engine) (path : Bytes) (data : Bindings) (canceled : Bool) : Record :=
  .afterAll {} ((e.trace path data canceled).filter (· ≠ .filled))

end Engine

/-- The passes at the end of a render add up. -/
theorem Render.FilledAfter.top {es es' : List Event} (h : FilledAfter es es') : es.filter (· ≠ .filled) = es' ∧
    ∃ passes, maxPasses ≤ passes ∧
      (Record.afterAll {} es).top = (Record.afterAll {} es').deferred.fill passes (Record.afterAll {} es').top := by
  obtain ⟨hfilled, heq⟩ := h
  have hkept : es'.filter (· ≠ .filled) = es' := List.filter_eq_self.mpr fun e he => by
    simpa using fun h : e = .filled => hfilled (h ▸ he)
  rcases heq with rfl | rfl
  · refine ⟨by simpa using hkept, maxPasses, Nat.le_refl _, ?_⟩
    simp only [Record.afterAll, List.foldl_append, List.foldl_cons, List.foldl_nil, Record.after]
  · refine ⟨by simpa using hkept, maxPasses + maxPasses, Nat.le_add_right _ _, ?_⟩
    simp only [Record.afterAll, List.foldl_append, List.foldl_cons, List.foldl_nil, Record.after,
      Render.Deferred.fill_fill]

namespace Engine

/-- The output of a render is what was written, with each placeholder replaced by all that was pushed to its
stack, or by the section of its name that was defined last, or by its fallback when there is none; and so on
in what is put in its place. -/
theorem render_filled (e : Engine) (he : e.Standard) (path : Bytes) (data : Bindings) (canceled : Bool) (out : Bytes)
    (after : Engine) (h : e.render path data canceled = (.ok out, after))
    (hclean : ∀ event ∈ e.trace path data canceled, event.IsClean)
    (hone : (e.unresolved path data canceled).deferred.OneFallback)
    (hnest : (e.unresolved path data canceled).deferred.nestsWithin maxPasses
      (e.unresolved path data canceled).top = true) :
    (e.unresolved path data canceled).deferred.Filled (e.unresolved path data canceled).top out := by
  unfold render at h
  unfold unresolved trace at *
  rcases hload : (e.session canceled).load e.compileStep path with ⟨f | p, s⟩
  · simp [hload] at h
  · simp only [hload] at h hclean hone hnest ⊢
    unfold runProgram at h
    rcases hrun : Render.run e.host p { top := { vars := data }, shared := { session := s } } with ⟨f | u, m⟩
    · simp [hrun] at h
    · simp only [hrun, Prod.mk.injEq, Except.ok.injEq] at h
      obtain ⟨hp, hruns⟩ := fromTemplate_of_load he hload data
      obtain ⟨es, hafter⟩ := Render.filledAfter_exec e.host (Compile.deferring_of_fromTemplate hp).last e.host.stepLimit
        { state := .root data s } m rfl hrun
      obtain ⟨hes, passes, hpasses, htop⟩ := hafter.top
      have hshows := Render.shows_run hrun hclean
      -- every placeholder was placed by an instruction of a template, of which the kinds are known
      have huniform : Render.Uniform es := by
        refine ⟨fun kind name fallback hmem => ?_, hes ▸ hone⟩
        have hevent : .placed kind name fallback ∈ rootEvents e.host p data s :=
          (List.mem_filter.mp (hes.symm ▸ hmem)).1
        obtain ⟨q, i, hq, hi, hop, rfl, rfl⟩ :=
          Render.placedBy_of_mem_events e.host.stepLimit hp hruns (Nat.zero_le _) hevent
        exact (Compile.deferring_of_fromTemplate hq).kinds i hi hop
      unfold rootEvents at *
      rw [hes] at hnest ⊢
      rw [← h.1, hshows.top, htop]
      exact Render.filled_afterAll huniform hafter.1 hpasses hnest

/-- A page with a stack in a section, and its layout, which pushes to the stack after it was shown. -/
def pages : Assoc Bytes Bytes :=
  [("page", "@extends('main')@section('body')<@stack('js')>@end@push('js')1@end"),
    ("main", "@yield('body')|@yield('foot', 'none')@push('js')2@end")]

/-- An engine with these pages. -/
def pageEngine : Engine where
  registry := Directive.Standard.registry
  resolver := Compile.Resolver.ofTable pages
  stepLimit := 40

/-- The stack shows all that was pushed to it, and the section that is missing falls back. -/
theorem render_filled_page :
    ∃ after, pageEngine.Standard ∧ pageEngine.render "page" [] false = (.ok "<12>|none", after) ∧
      (∀ event ∈ pageEngine.trace "page" [] false, event.IsClean) ∧
      (pageEngine.unresolved "page" [] false).deferred.OneFallback ∧
      (pageEngine.unresolved "page" [] false).deferred.nestsWithin maxPasses
        (pageEngine.unresolved "page" [] false).top = true ∧
      (pageEngine.unresolved "page" [] false).deferred.Filled (pageEngine.unresolved "page" [] false).top "<12>|none" := by
  have hstandard : pageEngine.Standard := ⟨rfl, nofun⟩
  have hout : (match pageEngine.render "page" [] false with
      | (.ok out, _) => out == "<12>|none"
      | (.error _, _) => false) = true := by decide +kernel
  have hclean : ∀ event ∈ pageEngine.trace "page" [] false, event.IsClean := by decide +kernel
  have hone : (pageEngine.unresolved "page" [] false).deferred.OneFallback := by decide +kernel
  have hnest : (pageEngine.unresolved "page" [] false).deferred.nestsWithin maxPasses
      (pageEngine.unresolved "page" [] false).top = true := by decide +kernel
  split at hout
  · rename_i out after hrender
    obtain rfl : out = "<12>|none" := beq_iff_eq.mp hout
    exact ⟨after, hstandard, hrender, hclean, hone, hnest,
      render_filled pageEngine hstandard "page" [] false _ after hrender hclean hone hnest⟩
  · cases hout

end Engine

end Stencil
