import Stencil.Proofs.Compile.Sealing
import Stencil.Proofs.Engine.Layout
import Stencil.Proofs.Program.Joining
import Stencil.Proofs.Render.Reaching

/-! # Every render ends

Whatever tree a program is compiled from, with the standard directives, it is the code of statements
(`isCode_of_fromTree`). So its renders end, also when components and layouts refer to one another in cycles
(`run_halts`). -/

namespace Stencil

namespace Compile

open Directive.Standard (registry)
open Statement (codeAll AllWellFormed)
open Stencil.Directive
open Stencil.Markup (Node)

/-- The program was compiled and linked from a tree with the standard directives. -/
def FromTree (p : Program) : Prop :=
  ∃ (r : Registry) (options : Options) (path : Bytes) (canceled : Bool) (nodes : List Node) (t : Template),
    r.entries = registry.entries ∧ (generate r options path canceled nodes).result = .ok t ∧ t.program = .ok p

theorem FromTemplate.fromTree {p : Program} (h : FromTemplate p) : FromTree p := by
  obtain ⟨r, options, path, src, t, hr, hresult, hprogram⟩ := h
  unfold compileSource at hresult
  split at hresult
  · cases hresult
  · rename_i nodes _
    exact ⟨r, options, path, false, nodes, t, hr, hresult, hprogram⟩

/-- When the activity was cancelled before, only a tree without nodes compiles. -/
theorem exists_statements_canceled {r : Registry} (hr : r.entries = registry.entries) {options : Options} {path : Bytes}
    {nodes : List Node} {t : Template} (h : (generate r options path true nodes).result = .ok t) :
    ∃ ss, t.instrs = codeAll ss ∧ AllWellFormed none ss ∧ (Program.marked (codeAll ss)).Nodup := by
  obtain ⟨env, henv⟩ : ∃ env, env = options.env r path nodes := ⟨_, rfl⟩
  have hdefs : env.registry.definitions = Standard.all := by
    rw [henv, Options.env, Registry.definitions, hr]
    rfl
  obtain ⟨st, hst⟩ : ∃ st, st = env.registry.definitions.foldl
      (fun st d => runFileHook { env with part := .pre } d d.onInitFile st) { canceled := true } := ⟨_, rfl⟩
  have hresult : (env.outcome path (compileNodes embedder env .all nodes st)).result = .ok t := by
    unfold generate at h
    extract_lets at h
    split at h
    · cases h
    · rw [hst, henv]
      exact h
  have hinit : Around { canceled := true } st (if env.unit.uses "extends" then [.enter] else []) [] := by
    rw [hst, hdefs]
    exact around_initFile rfl _
  cases nodes with
  | cons n nodes =>
    have hselects : selects .all n = true := rfl
    rw [compileNodes, if_pos hselects, if_pos hinit.running] at hresult
    cases hresult
  | nil =>
    obtain ⟨code, hcode, hend⟩ : ∃ code, Ending (env.finish st) code ∧ Around st (env.finish st) []
        ((if env.unit.uses "extends" then [.exit .discard []] else []) ++ code) := by
      rw [Env.finish, hdefs]
      exact around_endFile rfl st
    have hnone : AllWellFormed none [] := trivial
    obtain ⟨all, hall, hwell, hnodup⟩ :=
      exists_statements_around hnone List.nodup_nil hcode.straight (env.unit.uses "extends")
    obtain rfl : (env.finish st).template path = t := Except.ok.inj hresult
    refine ⟨all, ?_, hwell, hnodup⟩
    rw [← hall]
    simp [Template.instrs, State.template, hend.pre, hend.body, hend.post, hinit.pre, hinit.body, hinit.post]

theorem exists_statements_of_generate {r : Registry} (hr : r.entries = registry.entries) {options : Options} {path : Bytes}
    {canceled : Bool} {nodes : List Node} {t : Template} (h : (generate r options path canceled nodes).result = .ok t) :
    ∃ ss, t.instrs = codeAll ss ∧ AllWellFormed none ss ∧ (Program.marked (codeAll ss)).Nodup := by
  cases canceled with
  | true => exact exists_statements_canceled hr h
  | false =>
    obtain ⟨t', ss, hresult, -, -, hss⟩ := exists_statements_generate options path nodes
    rw [eq_sealedAs hr, generate_sealed, hresult] at h
    exact ⟨ss, Except.ok.inj h ▸ hss⟩

theorem isCode_of_fromTree {p : Program} (h : FromTree p) : p.IsCode := by
  obtain ⟨r, options, path, canceled, nodes, t, hr, hresult, hprogram⟩ := h
  obtain ⟨ss, hcode, hwell, hnodup⟩ := exists_statements_of_generate hr hresult
  have hinstrs : p.instrs = mergeLiterals (codeAll ss) := hcode ▸ instrs_of_link hprogram
  refine ⟨Statement.joinedAll ss, hinstrs.trans (Statement.mergeLiterals_codeAll hwell), hwell.joinedAll, ?_⟩
  rw [hinstrs, marked_mergeLiterals]
  exact hnodup

end Compile

namespace Render

open Compile (FromTree)

/-- In a program compiled from a tree only the end of a turn of a loop jumps back. Every run of it ends, when all
programs that can be loaded are compiled so, however these refer to one another; templates are not rendered more
deeply inside one another than is allowed, and the depth is the same after a run as before. -/
theorem run_halts (p : Program) (hp : FromTree p) (host : Host) (m : State) (hm : Runs FromTree host m) :
    (∀ pc i, p.instrs[pc]? = some i → p.Directed pc i) ∧
    (∃ o n, Ends host p { state := m } o ∧ ∀ limit, n ≤ limit → run { host with stepLimit := limit } p m = o) ∧
    ∀ limit, (run { host with stepLimit := limit } p m).2.shared.depth = m.shared.depth ∧
      ∀ k q m', Enters host limit p { state := m } k q m' →
        m'.shared.depth = m.shared.depth + k ∧ (m'.shared.depth : Int) ≤ host.maxDepth := by
  have hrun (limit : Nat) : run { host with stepLimit := limit } p m = exec host limit p { state := m } :=
    exec_stepLimit host limit limit p { state := m }
  refine ⟨fun pc i hi => (Compile.isCode_of_fromTree hp).directed hi, ?_, fun limit => ⟨?_, ?_⟩⟩
  · obtain ⟨o, ho⟩ := exists_ends (fun q hq => Compile.isCode_of_fromTree hq) hp hm
    obtain ⟨n, hn⟩ := exec_of_ends ho
    exact ⟨o, n, ho, fun limit hlimit => (hrun limit).trans (hn limit hlimit)⟩
  · rw [hrun]
    exact depth_exec host limit p { state := m }
  · exact fun k q m' henters => henters.depth_le

end Render

namespace Engine

open Render (Runs)
open Compile (FromTree)

/-- Two pages that are components of one another, the second with a layout that is the first. -/
def mirrorPages : Assoc Bytes Bytes :=
  [("page", "@component('other')<@slot('x')a@end>@end"), ("other", "@extends('page')@component('page')b@end")]

/-- An engine with these pages. -/
def mirrorEngine : Engine where
  registry := Directive.Standard.registry
  resolver := Compile.Resolver.ofTable mirrorPages
  maxDepth := 3

/-- The pages can be loaded, and a render of the first ends. -/
theorem run_halts_page : ∃ p s, (mirrorEngine.session false).load mirrorEngine.compileStep "page" = (.ok p, s) ∧
    FromTree p ∧ Runs FromTree mirrorEngine.host (.root [] s) ∧
    ∃ o n, Render.Ends mirrorEngine.host p { state := .root [] s } o ∧
      ∀ limit, n ≤ limit → Render.run { mirrorEngine.host with stepLimit := limit } p (.root [] s) = o := by
  have hstandard : mirrorEngine.Standard := ⟨rfl, nofun⟩
  have hload : ((mirrorEngine.session false).load mirrorEngine.compileStep "page").1.isOk = true := by decide +kernel
  rcases hloaded : (mirrorEngine.session false).load mirrorEngine.compileStep "page" with ⟨e | p, s⟩
  · rw [hloaded] at hload
    cases hload
  · obtain ⟨hp, hruns⟩ := fromTemplate_of_load hstandard hloaded []
    have hruns' : Runs FromTree mirrorEngine.host (.root [] s) :=
      ⟨fun q hq => (hruns.compiles q hq).fromTree, fun q hq => (hruns.keeps q hq).fromTree⟩
    exact ⟨p, s, rfl, hp.fromTree, hruns', (Render.run_halts p hp.fromTree mirrorEngine.host _ hruns').2.1⟩

end Engine

end Stencil
