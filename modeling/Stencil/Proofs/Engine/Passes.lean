import Stencil.Proofs.Engine.Layout

/-! # Placeholders that are left

A render makes a fixed number of passes over its output. Each pass takes one level off the placeholders that are
nested in one another, so none is left exactly when they are not more deeply nested than there are passes
(`mark_mem_render_iff`). A section that shows itself is nested without end, and its placeholder is left. -/

namespace Stencil.Render

/-- A placeholder is for a section or a stack. -/
def Piece.IsStandard : Piece → Prop
  | .text _ => True
  | .placeholder kind _ _ => kind = "section" ∨ kind = "stack"

namespace Deferred
variable {d : Deferred}

/-- All placeholders in deferred content are for sections and stacks. -/
structure IsStandard (d : Deferred) : Prop where
  pushed : ∀ e ∈ d.pushed, ∀ p ∈ e.2, p.IsStandard
  defined : ∀ e ∈ d.defined, ∀ p ∈ e.2, p.IsStandard

theorem IsStandard.expand (hd : d.IsStandard) (token : Bytes) : ∀ p ∈ d.expand token, p.IsStandard := by
  have htext : ∀ p ∈ [Piece.text ((d.fallback? token).getD [])], p.IsStandard :=
    fun p hp => List.mem_singleton.mp hp ▸ trivial
  unfold Deferred.expand
  rcases Shared.kindAndName token with ⟨kind, name⟩
  dsimp only
  split
  · split
    · exact htext
    · intro p hp
      obtain ⟨ps, hps, hmem⟩ := List.mem_flatten.mp hp
      obtain ⟨e, he, rfl⟩ := List.mem_map.mp hps
      exact hd.pushed e (List.mem_filter.mp he).1 p hmem
  · split
    · cases hsection : d.section? name with
      | none => exact htext
      | some ps =>
        obtain ⟨e, he, rfl⟩ := Option.map_eq_some_iff.mp hsection
        exact hd.defined e (List.mem_filter.mp (List.mem_of_getLast? he)).1
    · exact htext

theorem IsStandard.fillOnce (hd : d.IsStandard) {ps : List Piece} (hps : ∀ p ∈ ps, p.IsStandard) :
    ∀ p ∈ d.fillOnce ps, p.IsStandard := by
  intro q hq
  obtain ⟨p, hp, hmem⟩ := List.mem_flatMap.mp hq
  cases p with
  | text t => exact List.mem_singleton.mp hmem ▸ hps _ hp
  | placeholder kind name fallback => exact hd.expand _ q hmem

/-! ### Levels -/

theorem nestsWithin_text (n : Nat) (t : Bytes) : d.nestsWithin n [.text t] = true := by
  cases n <;> rfl

theorem nestsWithin_append (n : Nat) (ps qs : List Piece) :
    d.nestsWithin n (ps ++ qs) = (d.nestsWithin n ps && d.nestsWithin n qs) := by
  cases n <;> simp [nestsWithin, List.all_append]

theorem nestsWithin_nil (n : Nat) : d.nestsWithin n [] = true := by
  cases n <;> rfl

/-- Fallbacks are no deeper than one another, so it does not matter which one a placeholder gets. -/
theorem nestsWithin_expand (n : Nat) {kind : Bytes} (hkind : kind = "section" ∨ kind = "stack") (name fallback : Bytes) :
    d.nestsWithin n (d.expand (Piece.token kind name)) = d.nestsWithin n (d.content kind name fallback) := by
  simp only [expand, kindAndName_token hkind, content]
  rcases hkind with rfl | rfl
  · rw [if_neg (by decide), if_pos rfl, if_neg (by decide), if_pos rfl]
    cases d.section? name with
    | none => simp [nestsWithin_text]
    | some ps => rfl
  · simp only [if_true]
    by_cases hnone : d.pushedTo name = []
    · simp [hnone, nestsWithin_text, nestsWithin_nil]
    · simp [hnone]

/-- A pass takes one level off. -/
theorem nestsWithin_fillOnce (n : Nat) : ∀ {ps : List Piece}, (∀ p ∈ ps, p.IsStandard) →
    d.nestsWithin n (d.fillOnce ps) = d.nestsWithin (n + 1) ps
  | [], _ => by rw [nestsWithin_nil]; exact nestsWithin_nil n
  | p :: ps, hps => by
    have ih := nestsWithin_fillOnce n fun q hq => hps q (List.mem_cons_of_mem p hq)
    have hsplit : d.fillOnce (p :: ps) = d.fillOnce [p] ++ d.fillOnce ps := fillOnce_append [p] ps
    rw [hsplit, nestsWithin_append, ih]
    cases p with
    | text t =>
      have hpass : d.fillOnce [.text t] = [.text t] := rfl
      rw [hpass, nestsWithin_text]
      rfl
    | placeholder kind name fallback =>
      have hpass : d.fillOnce [.placeholder kind name fallback] = d.expand (Piece.token kind name) := by
        simp [Deferred.fillOnce]
      have hkind : kind = "section" ∨ kind = "stack" := hps _ List.mem_cons_self
      rw [hpass, nestsWithin_expand n hkind name fallback]
      simp [nestsWithin]

/-- Passes leave no placeholder exactly when there are as many of them as there are levels. -/
theorem nestsWithin_fill (hd : d.IsStandard) (n passes : Nat) {ps : List Piece} (hps : ∀ p ∈ ps, p.IsStandard) :
    d.nestsWithin n (d.fill passes ps) = d.nestsWithin (n + passes) ps := by
  induction passes generalizing ps with
  | zero => rfl
  | succ passes ih => rw [fill, ih (hd.fillOnce hps), nestsWithin_fillOnce _ hps, Nat.add_assoc]

/-- Clean output has the delimiter only where a placeholder is. -/
theorem mark_mem_flat {ps : List Piece} (hclean : Render.Clean ps) : mark ∈ flat ps ↔ d.nestsWithin 0 ps = false := by
  induction ps with
  | nil => simp [nestsWithin]
  | cons p ps ih =>
    have ih := ih fun q hq => hclean q (List.mem_cons_of_mem p hq)
    have hp := hclean p List.mem_cons_self
    rw [flat_cons, List.mem_append, ih]
    cases p with
    | text t =>
      have ht : mark ∉ t := hp
      simp [nestsWithin, Piece.bytes, ht]
    | placeholder kind name fallback => simp [nestsWithin, Piece.bytes]

end Deferred

/-- All placeholders of a record are for sections and stacks when those that were placed are. -/
theorem Record.isStandard_afterAll {es : List Event} (hfilled : .filled ∉ es)
    (hkinds : ∀ kind name fallback : Bytes, .placed kind name fallback ∈ es → kind = "section" ∨ kind = "stack") :
    (∀ p ∈ (Record.afterAll {} es).top, p.IsStandard) ∧ (Record.afterAll {} es).deferred.IsStandard := by
  have hall : (Record.afterAll {} es).All Piece.IsStandard :=
    Record.All.afterAll (fun _ => trivial) hfilled hkinds ⟨nofun, nofun, nofun, nofun⟩
  exact ⟨hall.top, hall.pushed, hall.defined⟩

/-- The passes at the end of a render are as many as its trace says. -/
theorem FilledAfter.passes {es es' : List Event} (h : FilledAfter es es') :
    (es.count .filled = 1 ∨ es.count .filled = 2) ∧
      (Record.afterAll {} es).top =
        (Record.afterAll {} es').deferred.fill (maxPasses * es.count .filled) (Record.afterAll {} es').top := by
  obtain ⟨hfilled, heq⟩ := h
  have hnone : es'.count .filled = 0 := List.count_eq_zero.mpr hfilled
  rcases heq with rfl | rfl
  · have hcount : (es' ++ [Event.filled]).count Event.filled = 1 := by simp [hnone]
    refine ⟨.inl hcount, ?_⟩
    rw [hcount, Nat.mul_one]
    simp only [Record.afterAll, List.foldl_append, List.foldl_cons, List.foldl_nil, Record.after]
  · have hcount : (es' ++ [Event.filled, Event.filled]).count Event.filled = 2 := by simp [hnone]
    refine ⟨.inr hcount, ?_⟩
    rw [hcount, Nat.mul_two]
    simp only [Record.afterAll, List.foldl_append, List.foldl_cons, List.foldl_nil, Record.after, Deferred.fill_fill]

end Stencil.Render

namespace Stencil.Engine

open Render (Event Record FilledAfter maxPasses mark rootEvents)

/-- How many passes the render of a template makes at its end. -/
def passes (e : Engine) (path : Bytes) (data : Bindings) (canceled : Bool) : Nat :=
  maxPasses * (e.trace path data canceled).count .filled

/-- The output of a render has the delimiter of placeholders in it exactly when placeholders are nested more deeply
than there are passes, of which there are eight, or twice as many when the template has placeholders of its own. -/
theorem mark_mem_render_iff (e : Engine) (he : e.Standard) (path : Bytes) (data : Bindings) (canceled : Bool)
    (out : Bytes) (after : Engine) (h : e.render path data canceled = (.ok out, after))
    (hclean : ∀ event ∈ e.trace path data canceled, event.IsClean) :
    (mark ∈ out ↔ (e.unresolved path data canceled).deferred.nestsWithin (e.passes path data canceled)
      (e.unresolved path data canceled).top = false) ∧
    (e.passes path data canceled = maxPasses ∨ e.passes path data canceled = 2 * maxPasses) := by
  unfold render at h
  unfold passes unresolved trace at *
  rcases hload : (e.session canceled).load e.compileStep path with ⟨f | p, s⟩
  · simp [hload] at h
  · simp only [hload] at h hclean ⊢
    unfold runProgram at h
    rcases hrun : Render.run e.host p { top := { vars := data }, shared := { session := s } } with ⟨f | u, m⟩
    · simp [hrun] at h
    · simp only [hrun, Prod.mk.injEq, Except.ok.injEq] at h
      obtain ⟨hp, hruns⟩ := fromTemplate_of_load he hload data
      obtain ⟨es, hafter⟩ := Render.filledAfter_exec e.host (Compile.deferring_of_fromTemplate hp).last e.host.stepLimit
        { state := .root data s } m rfl hrun
      have hes := hafter.top.1
      obtain ⟨hcount, htop⟩ := hafter.passes
      have hshows := Render.shows_run hrun hclean
      -- every placeholder was placed by an instruction of a template, of which the kinds are known
      have hkinds (kind name fallback : Bytes) (hmem : .placed kind name fallback ∈ es) :
          kind = "section" ∨ kind = "stack" := by
        have hevent : .placed kind name fallback ∈ rootEvents e.host p data s :=
          (List.mem_filter.mp (hes.symm ▸ hmem)).1
        obtain ⟨q, i, hq, hi, hop, rfl, rfl⟩ :=
          Render.placedBy_of_mem_events e.host.stepLimit hp hruns (Nat.zero_le _) hevent
        exact ((Compile.deferring_of_fromTemplate hq).kinds i hi hop).imp_right And.left
      obtain ⟨hstandard, hdeferred⟩ := Record.isStandard_afterAll hafter.1 hkinds
      have hnest := Render.Deferred.nestsWithin_fill hdeferred 0
        (maxPasses * (rootEvents e.host p data s).count .filled) hstandard
      unfold rootEvents at *
      rw [Nat.zero_add] at hnest
      rw [hes, ← h.1, hshows.top, Render.Deferred.mark_mem_flat (d := (Record.afterAll {} es).deferred) hshows.cleanTop,
        htop, hnest]
      exact ⟨.rfl, hcount.imp (fun h => by rw [h, Nat.mul_one]) fun h => by rw [h, Nat.mul_comm]⟩

/-- A page without placeholders of its own, and its partial, with nine sections that each show the next one. -/
def nestedPages : Assoc Bytes Bytes :=
  [("page", "@include('body')"),
    ("body", "@section('1')@yield('2')@end@section('2')@yield('3')@end@section('3')@yield('4')@end" ++
      "@section('4')@yield('5')@end@section('5')@yield('6')@end@section('6')@yield('7')@end" ++
      "@section('7')@yield('8')@end@section('8')@yield('9')@end@section('9')x@end@yield('1')")]

/-- An engine with these pages. -/
def nestedEngine : Engine where
  registry := Directive.Standard.registry
  resolver := Compile.Resolver.ofTable nestedPages
  stepLimit := 40

/-- Eight passes do not reach the ninth section, and its placeholder is left. -/
theorem mark_mem_render_page :
    ∃ out after, nestedEngine.Standard ∧ nestedEngine.render "page" [] false = (.ok out, after) ∧
      (∀ event ∈ nestedEngine.trace "page" [] false, event.IsClean) ∧
      nestedEngine.passes "page" [] false = maxPasses ∧ mark ∈ out := by
  have hstandard : nestedEngine.Standard := ⟨rfl, nofun⟩
  have hok : (nestedEngine.render "page" [] false).1.isOk = true := by decide +kernel
  have hclean : ∀ event ∈ nestedEngine.trace "page" [] false, event.IsClean := by decide +kernel
  have hpasses : nestedEngine.passes "page" [] false = maxPasses := by decide +kernel
  have hnest : (nestedEngine.unresolved "page" [] false).deferred.nestsWithin (nestedEngine.passes "page" [] false)
      (nestedEngine.unresolved "page" [] false).top = false := by decide +kernel
  rcases hrender : nestedEngine.render "page" [] false with ⟨f | out, after⟩
  · rw [hrender] at hok
    cases hok
  · exact ⟨out, after, hstandard, rfl, hclean, hpasses,
      (mark_mem_render_iff nestedEngine hstandard "page" [] false out after hrender hclean).1.mpr hnest⟩

/-- The placeholder is left although no template has its delimiter. -/
theorem not_mark_notMem_render : ¬ ∀ (e : Engine), e.Standard →
    (∀ path src, e.resolver path = .ok src → mark ∉ src) → ∀ (path out : Bytes) (after : Engine),
      e.render path [] false = (.ok out, after) → mark ∉ out := by
  intro h
  have hpages : ∀ page ∈ nestedPages, mark ∉ page.2 := by decide +kernel
  have hsources (path src : Bytes) (hsrc : nestedEngine.resolver path = .ok src) : mark ∉ src := by
    simp only [nestedEngine, Compile.Resolver.ofTable] at hsrc
    split at hsrc
    · rename_i found hfound
      cases hsrc
      exact hpages _ (Assoc.mem_of_get? hfound)
    · cases hsrc
  have hout : (match nestedEngine.render "page" [] false with
      | (.ok out, _) => decide (mark ∈ out)
      | (.error _, _) => false) = true := by decide +kernel
  split at hout
  · rename_i out after hrender
    exact h nestedEngine ⟨rfl, nofun⟩ hsources "page" out after hrender (of_decide_eq_true hout)
  · cases hout

end Stencil.Engine
