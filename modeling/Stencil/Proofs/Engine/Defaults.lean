import Mathlib.Data.List.Basic
import Stencil.Proofs.Engine.Passes

/-! # Defaults of yields

The defaults of yields are kept by what stands inside a placeholder, in one table for a whole render, and are looked up
when it is over. So each yield of a section that is never defined shows the default that was given for that section
last, whichever yield gave it, and only yields that give the same default show their own (`renders_last_default`). -/

namespace Stencil.Render

/-! ### Yields that are settled -/

/-- What is inside the placeholders of a section. -/
def sectionToken (name : Bytes) : Bytes := Piece.token "section" name

section
variable (name : Bytes) (text : Bytes → Bytes)

/-- A yield of the section that writes a text instead; the text may depend on the default of the yield. -/
def Event.settle : Event → Event
  | .placed kind other fallback =>
    if Piece.token kind other = sectionToken name then .wrote (text fallback) else .placed kind other fallback
  | e => e

def Piece.settle : Piece → Piece
  | .text t => .text t
  | .placeholder kind other fallback =>
    if Piece.token kind other = sectionToken name then .text (text fallback) else .placeholder kind other fallback

def Deferred.settle (d : Deferred) : Deferred where
  pushed := d.pushed.map fun e => (e.1, e.2.map (Piece.settle name text))
  defined := d.defined.map fun e => (e.1, e.2.map (Piece.settle name text))
  placed := d.placed.filter fun e => Piece.token e.1 e.2.1 ≠ sectionToken name

def Record.settle (r : Record) : Record where
  top := r.top.map (Piece.settle name text)
  outer := r.outer.map (List.map (Piece.settle name text))
  deferred := r.deferred.settle name text

/-- As long as nothing is filled in, it makes no difference whether yields are settled at once or later. -/
theorem Record.settle_after (r : Record) {e : Event} (he : e ≠ .filled) :
    (r.settle name text).after (e.settle name text) = (r.after e).settle name text := by
  cases e with
  | wrote t => simp [Event.settle, after, write, settle, Piece.settle]
  | placed kind other fallback =>
    by_cases htoken : Piece.token kind other = sectionToken name <;>
      simp [Event.settle, after, write, settle, Piece.settle, Deferred.settle, Deferred.place, htoken]
  | opened => simp [Event.settle, after, settle]
  | closed mode other =>
    obtain ⟨top, _ | ⟨s, rest⟩, deferred⟩ := r
    · rfl
    · cases mode <;> simp [Event.settle, after, close, settle, Deferred.settle, Deferred.push, Deferred.define]
  | filled => exact absurd rfl he

theorem Record.settle_afterAll {es : List Event} (hfilled : .filled ∉ es) (r : Record) :
    (r.settle name text).afterAll (es.map (Event.settle name text)) = (r.afterAll es).settle name text := by
  induction es generalizing r with
  | nil => rfl
  | cons e es ih =>
    obtain ⟨he, hes⟩ := not_or.mp (mt List.mem_cons.mpr hfilled)
    rw [List.map_cons, afterAll_cons, settle_after name text r (Ne.symm he), ih hes, afterAll_cons]

end

/-! ### Sections that are never defined -/

/-- A section is deferred only when a scope is closed that defines it. -/
theorem Record.defined_afterAll {es : List Event} {r : Record} {name : Bytes} {ps : List Piece}
    (h : (name, ps) ∈ (r.afterAll es).deferred.defined) :
    (name, ps) ∈ r.deferred.defined ∨ .closed .define name ∈ es := by
  induction es generalizing r with
  | nil => exact .inl h
  | cons e es ih =>
    rw [afterAll_cons] at h
    rcases ih h with h | h
    · cases e with
      | closed mode other =>
        obtain ⟨top, _ | ⟨s, rest⟩, deferred⟩ := r
        · exact .inl h
        · cases mode with
          | define =>
            rcases List.mem_append.mp h with h | h
            · exact .inl h
            · cases List.mem_singleton.mp h
              exact .inr List.mem_cons_self
          | merge | push | discard | slot | component | unknown _ => exact .inl h
      | wrote t | placed kind other fallback | opened | filled => exact .inl h
    · exact .inr (List.mem_cons_of_mem e h)

theorem Record.section?_eq_none {es : List Event} {name : Bytes} (h : .closed .define name ∉ es) :
    (Record.afterAll {} es).deferred.section? name = none := by
  rw [Deferred.section?, Option.map_eq_none_iff, List.getLast?_eq_none_iff, List.filter_eq_nil_iff]
  rintro ⟨other, ps⟩ hmem hother
  obtain rfl := beq_iff_eq.mp hother
  rcases Record.defined_afterAll hmem with hempty | hclosed
  · cases hempty
  · exact h hclosed

section
variable {d : Deferred} {name : Bytes} {text : Bytes → Bytes}

/-- A placeholder of another section or of a stack stands for the same. -/
theorem Deferred.settle_expand {token : Bytes} (htoken : token ≠ sectionToken name) :
    (d.settle name text).expand token = (d.expand token).map (Piece.settle name text) := by
  have hfallback : (d.settle name text).fallback? token = d.fallback? token := by
    have hfilter : (d.settle name text).placed.filter (fun e => Piece.token e.1 e.2.1 == token && e.2.2 != []) =
        d.placed.filter fun e => Piece.token e.1 e.2.1 == token && e.2.2 != [] := by
      rw [settle, List.filter_filter]
      refine List.filter_congr fun e _ => ?_
      by_cases he : Piece.token e.1 e.2.1 = token <;> simp [he, htoken]
    rw [fallback?, hfilter]
    rfl
  have hpushed (other : Bytes) : (d.settle name text).pushedTo other =
      (d.pushedTo other).map (List.map (Piece.settle name text)) := by
    simp only [pushedTo, settle, List.filter_map, List.map_map]
    rfl
  have hsection (other : Bytes) : (d.settle name text).section? other =
      (d.section? other).map (List.map (Piece.settle name text)) := by
    simp only [section?, settle, List.filter_map, List.getLast?_map, Option.map_map]
    rfl
  unfold expand
  rcases Shared.kindAndName token with ⟨kind, other⟩
  simp only [hfallback, hpushed, hsection, List.map_eq_nil_iff]
  split
  · split
    · rfl
    · simp [List.map_flatten]
  split
  · cases d.section? other <;> rfl
  · rfl

/-- A yield of a section that is not defined shows the default that was given last. -/
theorem Deferred.expand_sectionToken (hnone : d.section? name = none) :
    d.expand (sectionToken name) = [.text ((d.fallback? (sectionToken name)).getD [])] := by
  rw [expand, sectionToken, kindAndName_token (.inl rfl)]
  dsimp only
  rw [if_neg (by decide), if_pos rfl, hnone]
  rfl

/-- Yields of a section that is not defined may as well write the default that was given last. -/
theorem Deferred.settle_fill (hnone : d.section? name = none) (n : Nat) (ps : List Piece)
    (htext : ∀ fallback, text fallback = (d.fallback? (sectionToken name)).getD []) :
    (d.settle name text).fill n (ps.map (Piece.settle name text)) = (d.fill n ps).map (Piece.settle name text) := by
  have honce (ps : List Piece) : (d.settle name text).fillOnce (ps.map (Piece.settle name text)) =
      (d.fillOnce ps).map (Piece.settle name text) := by
    simp only [fillOnce, List.flatMap_map, List.map_flatMap]
    refine List.flatMap_congr fun p _ => ?_
    cases p with
    | text t => rfl
    | placeholder kind other fallback =>
      by_cases htoken : Piece.token kind other = sectionToken name
      · simp [Piece.settle, htoken, expand_sectionToken hnone, htext]
      · simp [Piece.settle, htoken, settle_expand htoken]
  induction n generalizing ps with
  | zero => rfl
  | succ n ih => rw [fill, fill, honce, ih]

/-- Where no placeholder is left, nothing is settled. -/
theorem Deferred.settle_of_nestsWithin {ps : List Piece} (h : d.nestsWithin 0 ps = true) :
    ps.map (Piece.settle name text) = ps := by
  refine (List.map_congr_left fun p hp => ?_).trans (List.map_id ps)
  have hp := List.all_eq_true.mp h p hp
  cases p with
  | text t => rfl
  | placeholder kind other fallback => cases hp

end

/-! ### Defaults in traces -/

/-- The default that an event gives for a section. -/
def Event.default? (name : Bytes) : Event → Option Bytes
  | .placed kind other fallback => if Piece.token kind other = sectionToken name then some fallback else none
  | _ => none

/-- The defaults that the yields of a section give, in order; one that gives none gives an empty one. -/
def defaults (name : Bytes) (es : List Event) : List Bytes := es.filterMap (Event.default? name)

/-- The last default that is not empty. -/
def lastDefault (name : Bytes) (es : List Event) : Bytes := ((defaults name es).filter (· ≠ [])).getLast?.getD []

theorem fallback?_afterAll (name : Bytes) (es : List Event) :
    ((Record.afterAll {} es).deferred.fallback? (sectionToken name)).getD [] = lastDefault name es := by
  have hfilter : ((es.filterMap Event.placement?).filter fun e =>
      Piece.token e.1 e.2.1 == sectionToken name && e.2.2 != []).map (·.2.2) = (defaults name es).filter (· ≠ []) := by
    induction es with
    | nil => rfl
    | cons e es ih =>
      cases e with
      | placed kind other fallback =>
        by_cases htoken : Piece.token kind other = sectionToken name <;> by_cases hempty : fallback = [] <;>
          simpa [Event.placement?, defaults, Event.default?, htoken, hempty] using ih
      | wrote t | opened | closed mode other | filled => exact ih
  rw [Deferred.fallback?, Record.placed_afterAll, lastDefault, ← hfilter, List.getLast?_map]
  rfl

/-- Yields that all give the same default give the last one. -/
theorem settle_lastDefault {name : Bytes} {es : List Event} (hsame : ∀ a ∈ defaults name es, ∀ b ∈ defaults name es, a = b) :
    es.map (Event.settle name fun _ => lastDefault name es) = es.map (Event.settle name id) := by
  refine List.map_congr_left fun e he => ?_
  cases e with
  | placed kind other fallback =>
    by_cases htoken : Piece.token kind other = sectionToken name
    · have hmem : fallback ∈ defaults name es := List.mem_filterMap.mpr ⟨_, he, by simp [Event.default?, htoken]⟩
      have hlast : lastDefault name es = fallback := by
        rw [lastDefault]
        cases hgiven : ((defaults name es).filter (· ≠ [])).getLast? with
        | none =>
          rw [List.getLast?_eq_none_iff, List.filter_eq_nil_iff] at hgiven
          have hempty : fallback = [] := Classical.byContradiction fun h => hgiven _ hmem (decide_eq_true h)
          rw [hempty, Option.getD_none]
        | some last => exact hsame _ (List.mem_filter.mp (List.mem_of_getLast? hgiven)).1 _ hmem
      simp [Event.settle, htoken, hlast]
    · simp [Event.settle, htoken]
  | wrote t | opened | closed mode other | filled => rfl

/-! ### Whole renders -/

section
variable {name : Bytes} {text : Bytes → Bytes} {es es' : List Event}

theorem FilledAfter.settle (h : FilledAfter es es') (name : Bytes) (text : Bytes → Bytes) :
    FilledAfter (es.map (Event.settle name text)) (es'.map (Event.settle name text)) := by
  obtain ⟨hfilled, heq⟩ := h
  refine ⟨fun hmem => ?_, heq.imp (fun heq => by rw [heq, List.map_append]; rfl) fun heq => by rw [heq, List.map_append]; rfl⟩
  obtain ⟨e, he, hsettle⟩ := List.mem_map.mp hmem
  cases e with
  | filled => exact hfilled he
  | placed kind other fallback =>
    rw [Event.settle] at hsettle
    split at hsettle <;> cases hsettle
  | wrote t | opened | closed mode other => cases hsettle

theorem count_settle (es : List Event) : (es.map (Event.settle name text)).count .filled = es.count .filled := by
  rw [List.count, List.countP_map]
  refine List.countP_congr fun e _ => ?_
  cases e with
  | placed kind other fallback =>
    rw [Function.comp_apply, Event.settle]
    split <;> rfl
  | wrote t | opened | closed mode other | filled => rfl

theorem FilledAfter.defaults (h : FilledAfter es es') (name : Bytes) : defaults name es = defaults name es' ∧ es' ⊆ es := by
  rcases h.2 with rfl | rfl <;> exact ⟨by simp [Render.defaults, Event.default?], List.subset_append_left _ _⟩

/-- At the end of a render without placeholders that are left, the yields of a section that was never defined have
written the default that was given last. -/
theorem FilledAfter.settle_top (h : FilledAfter es es') (hundefined : .closed .define name ∉ es')
    (htext : ∀ fallback, text fallback = lastDefault name es')
    (hnest : (Record.afterAll {} es').deferred.nestsWithin 0 (Record.afterAll {} es).top = true) :
    (Record.afterAll {} (es.map (Event.settle name text))).top = (Record.afterAll {} es).top := by
  have hafter := Record.settle_afterAll name text h.1 {}
  have hnone := Record.section?_eq_none hundefined
  have htext' (fallback : Bytes) : text fallback =
      ((Record.afterAll {} es').deferred.fallback? (sectionToken name)).getD [] := by
    rw [htext, fallback?_afterAll]
  have htop := h.passes.2
  have htop' := (h.settle name text).passes.2
  rw [show Record.afterAll {} (es'.map (Event.settle name text)) = _ from hafter, count_settle] at htop'
  rw [htop'.trans (Deferred.settle_fill hnone _ _ htext'), ← htop, Deferred.settle_of_nestsWithin hnest]

end

end Stencil.Render

namespace Stencil.Engine

open Compile (FromTemplate compileSource)
open Render (Event Record mark flat rootEvents defaults lastDefault)

/-- What the render of a text does, when it can be compiled. -/
def textTrace (e : Engine) (name src : Bytes) (data : Bindings) : List Event :=
  let c := compileSource e.registry e.compileOptions name false src
  match c.result.toOption.bind fun t => t.program.toOption with
  | none => []
  | some p =>
    rootEvents e.host p data
      { loader := e.loader, canceled := c.canceled, isSealed := e.registry.isSealed || c.seals }

/-- A render that succeeds, of a template or of a text: what it does, and its output. -/
inductive Renders (e : Engine) : (trace : List Event) → (out : Bytes) → Prop
  | path {path out : Bytes} {data : Bindings} {canceled : Bool} {after : Engine}
      (h : e.render path data canceled = (.ok out, after)) : Renders e (e.trace path data canceled) out
  | text {name src out : Bytes} {data : Bindings} {after : Engine}
      (h : e.renderText name src data false = (out, none, after)) : Renders e (e.textTrace name src data) out

/-- A render runs a program that comes of a template. -/
theorem Renders.exists_run {e : Engine} (he : e.Standard) {es : List Event} {out : Bytes} (h : e.Renders es out) :
    ∃ p data s m, FromTemplate p ∧ Render.run e.host p (.root data s) = (.ok (), m) ∧ m.top.out = out ∧
      es = rootEvents e.host p data s := by
  have houtput {name out : Bytes} {p : Program} {data : Bindings} {s : Session} {after : Engine}
      (h : e.runProgram name p data s = (.ok out, after)) :
      ∃ m, Render.run e.host p (.root data s) = (.ok (), m) ∧ m.top.out = out := by
    unfold runProgram at h
    rw [Render.State.root]
    rcases hrun : Render.run e.host p { top := { vars := data }, shared := { session := s } } with ⟨f | u, m⟩
    · simp [hrun] at h
    · simp only [hrun, Prod.mk.injEq, Except.ok.injEq] at h
      exact ⟨m, rfl, h.1⟩
  cases h with
  | @path path out data canceled after h =>
    unfold render at h
    unfold trace
    rcases hload : (e.session canceled).load e.compileStep path with ⟨f | p, s⟩
    · simp [hload] at h
    · simp only [hload] at h
      obtain ⟨m, hrun, hout⟩ := houtput h
      exact ⟨p, data, s, m, (fromTemplate_of_load he hload data).1, hrun, hout, rfl⟩
  | @text name src out data after h =>
    unfold renderText at h
    unfold textTrace
    cases hresult : (compileSource e.registry e.compileOptions name false src).result with
    | error f => simp [hresult] at h
    | ok t =>
      cases hprogram : t.program with
      | error f => simp [hresult, hprogram] at h
      | ok p =>
        simp only [hresult, hprogram, Except.toOption, Option.bind_some] at h ⊢
        split at h
        · simp at h
        · rename_i out' after' hrun
          simp only [Prod.mk.injEq] at h
          obtain ⟨rfl, -, rfl⟩ := h
          obtain ⟨m, hrun, hout⟩ := houtput hrun
          exact ⟨p, data, _, m, ⟨_, _, name, src, t, he.registry, hresult, hprogram⟩, hrun, hout, rfl⟩

/-- **Defaults are shared.** In a render that leaves no placeholder, every yield of a section that is never defined
shows the default that was given last by a yield of that section, if any yield gave one. So each one shows its own when
they all give the same. -/
theorem renders_last_default (e : Engine) (he : e.Standard) {es : List Event} {out : Bytes} (h : e.Renders es out)
    (hclean : ∀ event ∈ es, event.IsClean) (hmark : mark ∉ out) (name : Bytes)
    (hundefined : .closed .define name ∉ es) :
    out = flat (Record.afterAll {} (es.map (.settle name fun _ => lastDefault name es))).top ∧
      ((∀ a ∈ defaults name es, ∀ b ∈ defaults name es, a = b) →
        out = flat (Record.afterAll {} (es.map (.settle name id))).top) := by
  obtain ⟨p, data, s, m, hp, hrun, rfl, hes⟩ := h.exists_run he
  have hshows : Render.Shows m (Record.afterAll {} es) := hes ▸ Render.shows_run hrun (hes ▸ hclean)
  obtain ⟨es', hafter⟩ : ∃ es', Render.FilledAfter es es' := by
    rw [hes]
    exact Render.filledAfter_exec e.host (Compile.deferring_of_fromTemplate hp).last e.host.stepLimit _ m rfl hrun
  obtain ⟨hdefaults, hbefore⟩ := hafter.defaults name
  have hnest : (Record.afterAll {} es').deferred.nestsWithin 0 (Record.afterAll {} es).top = true := by
    rw [hshows.top, Render.Deferred.mark_mem_flat (d := (Record.afterAll {} es').deferred) hshows.cleanTop] at hmark
    exact eq_true_of_ne_false hmark
  have hout : m.top.out = flat (Record.afterAll {} (es.map (.settle name fun _ => lastDefault name es))).top := by
    rw [hafter.settle_top (fun hmem => hundefined (hbefore hmem)) (fun _ => by rw [lastDefault, hdefaults, lastDefault])
      hnest, hshows.top]
  exact ⟨hout, fun hsame => hout.trans (by rw [Render.settle_lastDefault hsame])⟩

/-- A layout with a title, a partial with another one and with a note, and a page without either. -/
def titledPages : Assoc Bytes Bytes :=
  [("page", "@extends('main')@section('body')b@end"), ("main", "@yield('title', 'x')@yield('body')@include('foot')"),
    ("foot", "@yield('title', 'y')@yield('note', 'n')@yield('note', 'n')")]

/-- An engine with these pages. -/
def titledEngine : Engine where
  registry := Directive.Standard.registry
  resolver := Compile.Resolver.ofTable titledPages
  stepLimit := 40

/-- The title of the layout is that of the partial; both notes are their own. -/
theorem renders_last_default_page : ∃ es out, titledEngine.Standard ∧ titledEngine.Renders es out ∧
    (∀ event ∈ es, event.IsClean) ∧ mark ∉ out ∧ .closed .define "title" ∉ es ∧ .closed .define "note" ∉ es ∧
    lastDefault "title" es = "y" ∧ out = "ybynn" ∧
    out = flat (Record.afterAll {} (es.map (.settle "title" fun _ => lastDefault "title" es))).top ∧
    out = flat (Record.afterAll {} (es.map (.settle "note" id))).top := by
  have hstandard : titledEngine.Standard := ⟨rfl, nofun⟩
  have hout : (match titledEngine.render "page" [] false with
      | (.ok out, _) => out == "ybynn"
      | (.error _, _) => false) = true := by decide +kernel
  have hclean : ∀ event ∈ titledEngine.trace "page" [] false, event.IsClean := by decide +kernel
  have hmark : mark ∉ ("ybynn" : Bytes) := by decide
  have htitle : .closed .define "title" ∉ titledEngine.trace "page" [] false := by decide +kernel
  have hnote : .closed .define "note" ∉ titledEngine.trace "page" [] false := by decide +kernel
  have hsame : ∀ a ∈ defaults "note" (titledEngine.trace "page" [] false),
      ∀ b ∈ defaults "note" (titledEngine.trace "page" [] false), a = b := by decide +kernel
  split at hout
  · rename_i out after hrender
    obtain rfl : out = "ybynn" := beq_iff_eq.mp hout
    exact ⟨_, _, hstandard, .path hrender, hclean, hmark, htitle, hnote, by decide +kernel, rfl,
      (renders_last_default _ hstandard (.path hrender) hclean hmark "title" htitle).1,
      (renders_last_default _ hstandard (.path hrender) hclean hmark "note" hnote).2 hsame⟩
  · cases hout

/-- The first of two yields does not show its own default. -/
theorem not_renders_own_default : ¬ ∀ (e : Engine), e.Standard → ∀ (es : List Event) (out : Bytes), e.Renders es out →
    (∀ event ∈ es, event.IsClean) → mark ∉ out → ∀ name, .closed .define name ∉ es →
      out = flat (Record.afterAll {} (es.map (.settle name id))).top := by
  intro h
  have hout : (match pageEngine.renderText "t" "@yield('a','x')@yield('a','y')" [] false with
      | (out, none, _) => out == "yy"
      | (_, some _, _) => false) = true := by decide +kernel
  have hclean : ∀ event ∈ pageEngine.textTrace "t" "@yield('a','x')@yield('a','y')" [], event.IsClean := by
    decide +kernel
  have hundefined : .closed .define "a" ∉ pageEngine.textTrace "t" "@yield('a','x')@yield('a','y')" [] := by
    decide +kernel
  have hown : flat (Record.afterAll {} ((pageEngine.textTrace "t" "@yield('a','x')@yield('a','y')" []).map
      (.settle "a" id))).top = "xy" := by decide +kernel
  split at hout
  · rename_i out after hrender
    obtain rfl : out = "yy" := beq_iff_eq.mp hout
    have hxy := h pageEngine ⟨rfl, nofun⟩ _ _ (.text hrender) hclean (by decide) "a" hundefined
    rw [hown] at hxy
    exact absurd hxy (by decide)
  · cases hout

end Stencil.Engine
