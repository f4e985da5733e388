import Stencil.Proofs.Compile.Prefetching
import Stencil.Proofs.Compile.Pruning

/-! # What is left of a template

A template compiles, but for comments, to the code of its tree without the directives that failed
(`uncommented_generate`). The hooks for whole templates count a directive as used also when it failed, so this needs
that a template that uses a layout still does; and when placeholders are only filled in because of a directive that
failed, the instruction for that comes in addition, at the end. -/

namespace Stencil

namespace Markup.Node

mutual

theorem tags_without (drop : Position → Bool) : ∀ n : Node, (tagsList (n.without drop)).Sublist n.tags
  | .text _ _ => .refl _
  | .interpolation _ _ _ => .refl _
  | .directive tag children => by
    rw [without]
    split
    · exact List.nil_sublist _
    · simpa [tagsList, tags] using tagsList_withoutAll drop children
  | .part _ tag children => by
    rw [without]
    split
    · exact List.nil_sublist _
    · simpa [tagsList, tags] using tagsList_withoutAll drop children

/-- No directive comes in. -/
theorem tagsList_withoutAll (drop : Position → Bool) : ∀ ns : List Node,
    (tagsList (withoutAll drop ns)).Sublist (tagsList ns)
  | [] => .refl _
  | n :: ns => by
    rw [withoutAll, tagsList_append, tagsList]
    exact (tags_without drop n).append (tagsList_withoutAll drop ns)

end

end Markup.Node

namespace Compile

open Stencil.Directive
open Stencil.Directive.Standard
open Stencil.Markup (Node Tag Position)
open Program (uncommented uncommented_append)

/-! ### Hooks for whole templates -/

/-- The template is seen to have placeholders that are to be filled in. -/
def fills (u : UnitInfo) : Bool := u.uses "yield" || u.uses "stack"

theorem uses_withoutAll {path : Bytes} {drop : Position → Bool} {nodes : List Node} {name : Bytes}
    (h : (unitInfo path (Node.withoutAll drop nodes)).uses name = true) : (unitInfo path nodes).uses name = true := by
  have hused : (unitInfo path (Node.withoutAll drop nodes)).used.Sublist (unitInfo path nodes).used :=
    ((Node.tagsList_withoutAll drop nodes).filter _).map _
  exact decide_eq_true (Nat.lt_of_lt_of_le (of_decide_eq_true h) (hused.count_le name))

theorem fills_withoutAll {path : Bytes} {drop : Position → Bool} {nodes : List Node}
    (h : fills (unitInfo path (Node.withoutAll drop nodes)) = true) : fills (unitInfo path nodes) = true := by
  simp only [fills, Bool.or_eq_true] at h ⊢
  exact h.imp uses_withoutAll uses_withoutAll

theorem filling_filling (st : State) : st.filling.filling = st.filling := by
  by_cases hknown : (Assoc.get? resolvedKey st.memory).isSome
  · simp [State.filling, hknown]
  · have hafter : (Assoc.get? resolvedKey st.filling.memory).isSome := by
      simp [State.filling, hknown, State.emit]
    rw [State.filling, if_pos hafter]

theorem State.Matches.filling {st st' : State} (h : st.Matches st') : st.filling.Matches st'.filling := by
  unfold State.filling
  rw [h.memory]
  split
  · exact h
  · have hremembered : State.Matches { st with memory := Assoc.insert resolvedKey (.bool true) st.memory }
        { st' with memory := Assoc.insert resolvedKey (.bool true) st.memory } :=
      ⟨h.pre, h.body, h.post, h.loader, h.labels, rfl, h.data, h.canceled⟩
    exact hremembered.emit .post _

/-- Filling in comes at the end, if it was not there before. -/
theorem out_filling (st : State) : ∃ extra, (extra = [] ∨ extra = [{ op := .resolve }]) ∧
    st.filling.out = { st.out with post := st.out.post ++ extra } := by
  by_cases hknown : (Assoc.get? resolvedKey st.memory).isSome
  · exact ⟨[], .inl rfl, by simp [State.filling, hknown]⟩
  · exact ⟨[{ op := .resolve }], .inr rfl, by simp [State.filling, hknown, State.emit, Output.append]⟩

section Hooks
variable {env : Env}

/-- The state once the layout is rendered. -/
def Env.layout (env : Env) (st : State) : State :=
  runFileHook { env with part := .post } extendsDirective extendsDirective.onEndFile st

theorem finish_eq (hdefs : env.registry.definitions = all) (st : State) :
    env.finish st = if fills env.unit then (env.layout st).filling else env.layout st := by
  have hhooks : env.finish st =
      runFileHook { env with part := .post } stackDirective
        (some fun u => if u.uses "stack" then ensureResolve else pure ())
        (runFileHook { env with part := .post } yieldDirective
          (some fun u => if u.uses "yield" then ensureResolve else pure ()) (env.layout st)) := by
    rw [Env.finish, hdefs]
    rfl
  rw [hhooks, runFileHook_ensureResolve rfl, runFileHook_ensureResolve rfl, fills]
  cases env.unit.uses "yield" <;> cases env.unit.uses "stack" <;> simp [filling_filling]

end Hooks

section Matching
variable {env : Env} {used : List Bytes} (hregistry : env.registry = registry)
  (hextends : (env.using used).unit.uses "extends" = env.unit.uses "extends")
include hregistry hextends

theorem matches_start : env.start.Matches (env.using used).start := by
  have hstart (env : Env) (henv : env.registry = registry) : env.start =
      runFileHook { env with part := .pre } stackDirective stackDirective.onInitFile
        (runFileHook { env with part := .pre } extendsDirective extendsDirective.onInitFile {}) := by
    rw [Env.start, henv]
    rfl
  have hsame (yes no : Script Unit) : (if (env.using used).unit.uses "extends" then yes else no) =
      if env.unit.uses "extends" then yes else no := by rw [hextends]
  rw [hstart env hregistry, hstart (env.using used) hregistry]
  have hopened : State.Matches (runFileHook { env with part := .pre } extendsDirective extendsDirective.onInitFile {})
      (runFileHook { env.using used with part := .pre } extendsDirective extendsDirective.onInitFile {}) :=
    matches_runFileHook { env with part := .pre } used hregistry extendsDirective (hsame _ _) (.refl {})
  exact matches_runFileHook { env with part := .pre } used hregistry stackDirective rfl hopened

theorem matches_layout {st st' : State} (h : st.Matches st') : (env.layout st).Matches ((env.using used).layout st') := by
  have hsame (yes no : Script Unit) : (if (env.using used).unit.uses "extends" then yes else no) =
      if env.unit.uses "extends" then yes else no := by rw [hextends]
  exact matches_runFileHook { env with part := .post } used hregistry extendsDirective (hsame _ _) h

/-- At the end both templates are the same, but for filling in when only the first is seen to need it. -/
theorem uncommented_finish (hfills : fills (env.using used).unit = true → fills env.unit = true) {st st' : State}
    (h : st.Matches st') (path path' : Bytes) : ∃ extra,
      (extra = [] ∨ extra = [{ op := .resolve }] ∧ fills env.unit = true ∧ fills (env.using used).unit = false) ∧
      uncommented ((env.finish st).template path).instrs =
        uncommented (((env.using used).finish st').template path').instrs ++ extra := by
  have hinstrs (st : State) (path : Bytes) : uncommented (st.template path).instrs =
      uncommented st.out.pre ++ uncommented st.out.body ++ uncommented st.out.post := by
    simp only [State.template, Template.instrs, uncommented_append]
  have hlayout := matches_layout hregistry hextends h
  have hsame {st st' : State} (h : st.Matches st') : uncommented (st.template path).instrs =
      uncommented (st'.template path').instrs := by
    rw [hinstrs, hinstrs, h.pre, h.body, h.post]
  have hdefs : env.registry.definitions = all := hregistry ▸ rfl
  have hdefs' : (env.using used).registry.definitions = all := hdefs
  rw [finish_eq hdefs, finish_eq hdefs']
  cases hfilled : fills env.unit with
  | false =>
    have hfilled' : fills (env.using used).unit = false := by
      cases hfilled' : fills (env.using used).unit with
      | false => rfl
      | true => rw [hfills hfilled'] at hfilled; cases hfilled
    rw [hfilled', if_neg Bool.false_ne_true, if_neg Bool.false_ne_true, hsame hlayout]
    exact ⟨[], .inl rfl, (List.append_nil _).symm⟩
  | true =>
    cases hfilled' : fills (env.using used).unit with
    | true =>
      rw [if_pos rfl, if_pos rfl, hsame hlayout.filling]
      exact ⟨[], .inl rfl, (List.append_nil _).symm⟩
    | false =>
      obtain ⟨extra, hextra, hout⟩ := out_filling (env.layout st)
      refine ⟨extra, hextra.imp_right fun h => ⟨h, rfl, rfl⟩, ?_⟩
      rw [if_pos rfl, if_neg Bool.false_ne_true, ← hsame hlayout, hinstrs, hinstrs, hout]
      rcases hextra with rfl | rfl <;> simp [uncommented]

end Matching

/-! ### Templates -/

section Nodes
variable {env : Env} (hregistry : env.registry = registry)
include hregistry

/-- All nodes are compiled, and only they record errors. -/
theorem exists_compiled (nodes : List Node) : ∃ st, compileNodes embedder env .all nodes env.start = (.ok (), st) ∧
    env.start.errors = [] ∧ env.start.canceled = false ∧ (env.finish st).errors = st.errors := by
  have hdefs : env.registry.definitions = all := hregistry ▸ rfl
  have hinit : Around {} env.start (if env.unit.uses "extends" then [.enter] else []) [] := by
    rw [Env.start, hdefs]
    exact around_initFile rfl {}
  obtain ⟨st, hrun, -⟩ := tame_compileNodes .all nodes
    (fun n _ => nodeTame hregistry (embedTame_embedAt maxIncludes) n) env.start hinit.running
  obtain ⟨code, -, hend⟩ : ∃ code, Ending (env.finish st) code ∧ Around st (env.finish st) []
      ((if env.unit.uses "extends" then [.exit .discard []] else []) ++ code) := by
    rw [Env.finish, hdefs]
    exact around_endFile rfl st
  exact ⟨st, hrun, hinit.errors, hinit.running, hend.errors⟩

/-- The nodes that are left compile to what matches. -/
theorem prunes_start {used : List Bytes} (hown : env.currentPath = env.unit.path)
    (hextends : (env.using used).unit.uses "extends" = env.unit.uses "extends") {nodes : List Node}
    (hone : ∀ place, Node.headsAtAll place nodes ≤ 1) {drop : Position → Bool} {st : State}
    (hrun : compileNodes embedder env .all nodes env.start = (.ok (), st))
    (hdrop : ∀ place, drop place = true ↔ 0 < st.failuresAt env.unit.path place) :
    ∃ st', compileNodes embedder (env.using used) .all (Node.withoutAll drop nodes) (env.using used).start =
      (.ok (), st') ∧ st.Matches st' := by
  obtain ⟨_, hrun', herrors, hrunning, -⟩ := exists_compiled hregistry nodes
  obtain rfl : st = _ := congrArg Prod.snd (hrun.symm.trans hrun')
  have hdrops : Drops env.unit.path drop (nodes.filter (selects .all)) env.start st := fun place _ => by
    rw [hdrop place]
    simp [State.failuresAt, herrors]
  have hembed := embedTame_embedAt maxIncludes
  have hnode (n : Node) : NodePrunes embedder env used drop n :=
    nodePrunes hregistry hembed hown (embedMatches_embedAt maxIncludes) (extends_embedAt maxIncludes) n
  have hall (place : Position) : Node.headsAtAll place (nodes.filter (selects .all)) ≤ 1 := by
    have hsum := Markup.headsAtAll_filter place (selects .all) nodes
    have := hone place
    omega
  have hmatches := prunes_compileNodes hregistry hembed .all nodes (fun n _ => hnode n) hall _ _
    (matches_start hregistry hextends) hrunning
  rw [← embedder, hrun] at hmatches
  rcases hleft : compileNodes embedder (env.using used) .all (Node.withoutAll drop nodes) (env.using used).start
    with ⟨r, st'⟩
  rw [hleft] at hmatches
  obtain ⟨rfl, hst⟩ : r = .ok () ∧ st.Matches st' := hmatches hdrops
  exact ⟨st', rfl, hst⟩

end Nodes

/-- With the standard directives it makes no difference what is loaded ahead: they cancel nothing. -/
theorem generate_eq_generateWith_nil (options : Options) (path : Bytes) (nodes : List Node) :
    generate registry options path false nodes = generateWith registry options path nodes [] := by
  obtain ⟨t, ss, -, hrunning, -⟩ := exists_statements_generate options path nodes
  rw [generate_eq_generateWith] at hrunning ⊢
  cases hresolver : options.resolver with
  | none => simp only [Options.env, hresolver]
  | some resolver =>
    have hfound (p src : Bytes) (h : Assoc.get? p (options.env registry path nodes).prefetched = some src) :
        resolver p = .ok src := by
      simp only [Options.env, hresolver] at h
      exact get?_prefetch resolver _ p src h
    exact (generateWith_congr registry options hresolver path nodes hfound (fun _ _ h => by cases h) hrunning).symm

/-- An error of the template itself was recorded at the place. -/
def Template.failedAt (t : Template) (place : Position) : Bool :=
  t.errors.any fun d => d.path = t.path ∧ d.at? = some place

/-- What is left of the tree of a template without the directives and parts of chains that failed, and all below
these. -/
def Template.remaining (t : Template) (nodes : List Node) : List Node := Node.withoutAll t.failedAt nodes

/-- **A failed directive costs only itself.** Without the directives that failed, a tree compiles to the same code but
for comments; a template that extends a layout must still do so. When placeholders are only filled in because of a
directive that failed, this comes in addition, at the end. -/
theorem uncommented_generate (options : Options) (path src : Bytes) (nodes : List Node)
    (hparse : Markup.parse registry options.parse path src = .ok nodes) :
    ∃ t, (generate registry options path false nodes).result = .ok t ∧
      ((unitInfo path (t.remaining nodes)).uses "extends" = (unitInfo path nodes).uses "extends" →
        ∃ t' extra, (generate registry options path false (t.remaining nodes)).result = .ok t' ∧
          (extra = [] ∨ extra = [{ op := .resolve }] ∧ fills (unitInfo path nodes) = true ∧
            fills (unitInfo path (t.remaining nodes)) = false) ∧
          uncommented t.instrs = uncommented t'.instrs ++ extra) := by
  obtain ⟨env, henv⟩ : ∃ env, env = { options.env registry path nodes with prefetched := [] } := ⟨_, rfl⟩
  have hregistry : env.registry = registry := henv ▸ rfl
  have hunit : env.unit = unitInfo path nodes := henv ▸ rfl
  have hown : env.currentPath = env.unit.path := henv ▸ rfl
  obtain ⟨st, hrun, -, -, herrors⟩ := exists_compiled hregistry nodes
  obtain ⟨t, ht⟩ : ∃ t, t = (env.finish st).template path := ⟨_, rfl⟩
  have hresult : (generate registry options path false nodes).result = .ok t := by
    rw [generate_eq_generateWith_nil, generateWith, ← henv, hrun, ht]
    rfl
  refine ⟨t, hresult, fun hextends => ?_⟩
  have hfailed (place : Position) : t.failedAt place = true ↔ 0 < st.failuresAt env.unit.path place := by
    have hpath : env.unit.path = path := hunit ▸ rfl
    rw [State.failuresAt, List.countP_pos_iff, Template.failedAt, List.any_eq_true, ht, hpath]
    simp only [State.template, herrors]
  have henv' : env.using (unitInfo path (t.remaining nodes)).used =
      { options.env registry path (t.remaining nodes) with prefetched := [] } := by
    rw [henv]
    rfl
  have hunit' : (env.using (unitInfo path (t.remaining nodes)).used).unit = unitInfo path (t.remaining nodes) :=
    congrArg Env.unit henv'
  have hsame : (env.using (unitInfo path (t.remaining nodes)).used).unit.uses "extends" = env.unit.uses "extends" := by
    rw [hunit', hunit, hextends]
  obtain ⟨st', hrun', hmatches⟩ := prunes_start hregistry hown hsame (Markup.headsAtAll_parse hparse) hrun hfailed
  obtain ⟨extra, hextra, hinstrs⟩ := uncommented_finish hregistry hsame
    (by rw [hunit', hunit]; exact fills_withoutAll) hmatches path path
  rw [hunit, hunit'] at hextra
  rw [← ht] at hinstrs
  refine ⟨_, extra, ?_, hextra, hinstrs⟩
  have hremaining : Node.withoutAll t.failedAt nodes = t.remaining nodes := rfl
  rw [hremaining] at hrun'
  rw [generate_eq_generateWith_nil, generateWith, ← henv', hrun']
  rfl

end Compile

end Stencil
