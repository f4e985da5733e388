import Stencil.Proofs.Blocks.Generation
import Stencil.Proofs.Blocks.Simulation
import Stencil.Proofs.Engine.Termination

/-! # Templates with blocks render what they mean

From a tree to its statements, to the program with its literals joined, to a run: rendering gives the output of the
interpretation, or fails where the interpretation does (`renders_interpretation`). The templates of components are
loaded on the way. They may render one another in cycles; the induction is on how many may still be rendered inside
one another. -/

namespace Stencil.Blocks

open Stencil.Compile (generate mergeLiterals Options Template structured_generate FromTree isCode_of_fromTree)
open Stencil.Directive.Standard (registry)
open Stencil.Markup (Node)
open Stencil.Render (State Frame Host Evaluator Flow Within Answers CodeAt openTemplate renderTemplate performAll mark)
open Statement (codeAll joinedAll)

/-! ### Programs of templates -/

/-- The program of a template without errors; the nodes are those of the template with its includes filled in. -/
def Compiled (nodes : List Node) (p : Program) : Prop :=
  ∃ options path source t, nodes = inlined options source ∧ AreBlocks source ∧ AreBlocks nodes ∧
    (generate registry options path false source).result = .ok t ∧ t.errors = [] ∧ t.program = .ok p

theorem Compiled.code {nodes : List Node} {p : Program} (h : Compiled nodes p) :
    p.instrs = codeAll (joinedAll (statementsAll 0 nodes)) ∧ (Program.marked p.instrs).Nodup := by
  obtain ⟨options, path, source, t, rfl, hsource, hnodes, ht, herrors, hprogram⟩ := h
  have hinstrs : p.instrs = mergeLiterals t.instrs := Compile.instrs_of_link hprogram
  have hcode := instrs_of_blocks hsource hnodes ht herrors
  obtain ⟨t', ht', -, hstructured⟩ := structured_generate options path source
  obtain rfl : t' = t := Except.ok.inj (ht'.symm.trans ht)
  refine ⟨?_, ?_⟩
  · rw [hinstrs, hcode, Statement.mergeLiterals_codeAll (allWellFormed_statementsAll _ 0)]
  · rw [hinstrs, Compile.marked_mergeLiterals]
    exact hstructured.nodup

theorem Compiled.isCode {nodes : List Node} {p : Program} (h : Compiled nodes p) : p.IsCode :=
  ⟨_, h.code.1, (allWellFormed_statementsAll nodes 0).joinedAll, h.code.2⟩

/-- The program is that of the template at a path, whose components are at such paths too. -/
def Provides (library : Library) (pages : Bytes → Prop) (path : Bytes) (p : Program) : Prop :=
  ∃ nodes, library path = .ok nodes ∧ Compiled nodes p ∧ Closed pages nodes

/-- Any program of the standard directives; for a page of the library it is the program of its tree. -/
def Stored (library : Library) (pages : Bytes → Prop) (path : Bytes) (p : Program) : Prop :=
  FromTree p ∧ (pages path → Provides library pages path p)

/-- Templates are compiled with the standard directives, and pages of a library from their trees, which cancels
nothing. -/
structure Serves (compile : CompileStep) (library : Library) (pages : Bytes → Prop) : Prop where
  fromTree : ∀ path canceled p, (compile path canceled).program = .ok p → FromTree p
  provides : ∀ path, pages path → ∀ p, (compile path false).program = .ok p → Provides library pages path p
  missing : ∀ path, pages path → ∀ e, (compile path false).program = .error e → library path = .error e
  running : ∀ path, pages path → (compile path false).canceled = false

/-! ### Runs of templates -/

/-- A whole run comes to what a result says of the view of its first state. -/
def Comes (kept : Bytes → Program → Prop) (depth : Nat) (p : Program) (v : View) (o : Render.Outcome) : Result → Prop
  | .ok (w, out) => ∃ m, o = (.ok (), m.resolve) ∧ Serving kept depth m ∧ view m = v.update w out
  | .error e => ∃ pc i e', o.1 = .error (.instruction p.name pc i e') ∧ Caused e e'

section
variable {host : Host} {evaluate : Evaluator} {compile : CompileStep} {library : Library} {pages : Bytes → Prop}
  {depth : Nat}
variable (hserves : Serves compile library pages) (hcompile : host.compile = some compile)
include hserves hcompile

theorem Serving.within {m : State} (hm : Serving (Stored library pages) depth m) :
    Within Program.IsCode host depth m := by
  refine ⟨⟨?_, ?_⟩, hm.depth⟩
  · rintro p ⟨compile', path, canceled, hcompile', hp⟩
    obtain rfl : compile = compile' := Option.some.inj (hcompile.symm.trans hcompile')
    exact isCode_of_fromTree (hserves.fromTree path canceled p hp)
  · rintro p ⟨path, hp⟩
    exact isCode_of_fromTree (hm.kept _ hp).1

/-- A run of the program of a template comes to what the template means, when components do. -/
theorem exists_comes {run : Program → State → Render.Outcome} (hrun : Answers Program.IsCode host depth run)
    {component : Component} (hset : Setting host run evaluate component pages (Stored library pages) depth)
    {nodes : List Node} {p : Program} (hp : Compiled nodes p) (hclosed : Closed pages nodes) {m : State}
    {outer : List Bindings} {w : World}
    (hm : Serving (Stored library pages) depth m) (h : (view m).Shows outer w) :
    ∃ o, Render.Ends host p { state := m } o ∧
      Comes (Stored library pages) depth p (view m) o (interpretAll (evaluate false) component outer 0 nodes w) := by
  obtain ⟨hinstrs, hnodup⟩ := hp.code
  have hcode : CodeAt p 0 (codeAll (joinedAll (statementsAll 0 nodes))) := hinstrs ▸ CodeAt.whole p
  have hreached := Render.reached_performAll hrun hnodup none _ (allWellFormed_statementsAll nodes 0).joinedAll
    { state := m } hcode ⟨hm.within hserves hcompile, nofun⟩
  rw [Render.performAll_joinedAll] at hreached
  have hagrees : Agrees (Serving (Stored library pages) depth) (view m) (performAll host run (statementsAll 0 nodes) m)
      (interpretAll (evaluate false) component outer 0 nodes w) := simulates_statementsAll hset hclosed 0 m outer w hm h
  rcases hr : interpretAll (evaluate false) component outer 0 nodes w with e | ⟨w', out⟩ <;> rw [hr] at hagrees
  · obtain ⟨i, e', hfailed, hcaused⟩ := hagrees
    rw [hfailed] at hreached
    obtain ⟨pc, m', hends⟩ := hreached
    exact ⟨_, hends, pc, i, e', rfl, hcaused⟩
  · obtain ⟨m', hdone, hm', hview⟩ := hagrees
    rw [hdone] at hreached
    refine ⟨_, hreached _ (.finish ?_), m', rfl, hm', hview⟩
    simp [hinstrs]

/-! ### Components -/

omit hcompile in
/-- A template that is loaded is the library's, and so are those that are kept. -/
theorem load_cases {s : Session} (hrunning : s.canceled = false)
    (hkept : ∀ entry ∈ s.loader.programs, Stored library pages entry.1 entry.2) {path : Bytes} (hpath : pages path) :
    (s.load compile path).2.canceled = false ∧
    (∀ entry ∈ (s.load compile path).2.loader.programs, Stored library pages entry.1 entry.2) ∧
    ((∃ p, (s.load compile path).1 = .ok p ∧ Provides library pages path p) ∨
      ∃ e, (s.load compile path).1 = .error (.within ("failed to load " ++ path) e) ∧ library path = .error e) := by
  unfold Session.load
  rw [hrunning]
  split
  · rename_i p hp
    refine ⟨rfl, hkept, .inl ⟨p, rfl, ?_⟩⟩
    unfold Loader.kept? at hp
    split at hp
    · exact (hkept (path, p) (Assoc.mem_of_get? hp)).2 hpath
    · cases hp
  · dsimp only
    split
    · rename_i e he
      exact ⟨hserves.running path hpath, hkept, .inr ⟨e, rfl, hserves.missing path hpath e he⟩⟩
    · rename_i p hp
      have hprovides := hserves.provides path hpath p hp
      refine ⟨hserves.running path hpath, fun entry hentry => ?_, .inl ⟨p, rfl, hprovides⟩⟩
      dsimp only [Loader.store] at hentry
      split at hentry
      · rcases Assoc.mem_insert_cases hentry with hentry | rfl
        · exact hkept entry hentry
        · exact ⟨hserves.fromTree path false p hp, fun _ => hprovides⟩
      · exact hkept entry hentry

/-- A template is opened in a scope of its own, unless it is too deep or missing. -/
theorem openTemplate_cases {m : State} (hm : Serving (Stored library pages) depth m) {path : Bytes}
    (hpath : pages path) (vars : Bindings) :
    (host.maxDepth ≤ depth ∧ openTemplate host path vars m = (.error (.renderTooDeep path host.maxDepth), m)) ∨
    (depth < host.maxDepth ∧
      ((∃ p inner, openTemplate host path vars m = (.ok p, inner) ∧ Provides library pages path p ∧
        Serving (Stored library pages) (depth + 1) inner ∧ view inner = (view m).enter vars false) ∨
      ∃ e m', openTemplate host path vars m = (.error (.within ("failed to load " ++ path) e), m') ∧
        library path = .error e)) := by
  unfold openTemplate
  simp only [hcompile, hm.depth]
  by_cases hdepth : host.maxDepth ≤ depth
  · exact .inl ⟨hdepth, if_pos hdepth⟩
  · refine .inr ⟨by omega, ?_⟩
    rw [if_neg hdepth, if_neg (by simp [hm.running])]
    obtain ⟨hrunning, hkept, hloaded⟩ := load_cases hserves hm.running hm.kept hpath
    rcases hload : m.shared.session.load compile path with ⟨loaded, session⟩
    rw [hload] at hrunning hkept hloaded
    rcases hloaded with ⟨p, rfl, hprovides⟩ | ⟨e, rfl, hmissing⟩
    · refine .inl ⟨p, _, rfl, hprovides, ⟨hrunning, rfl, hkept⟩, ?_⟩
      exact view_enter { m with shared := { m.shared with session } } vars false
    · exact .inr ⟨e, _, rfl, hmissing⟩

omit hserves hcompile in
/-- The output of a template that was rendered goes to the output around. -/
theorem agrees_of_comes {p : Program} {m inner : State} {vars : Bindings}
    (hview : view inner = (view m).enter vars false)
    {outer : List Bindings} {w : World} (h : (view m).Shows outer w) {o : Render.Outcome} {r : Result}
    (hcomes : Comes (Stored library pages) (depth + 1) p (view inner) o r) (i : Instr) :
    Agrees (Serving (Stored library pages) depth) (view m)
      (.of i (Render.Outcome.settled (match o.1 with
        | .error e => (.error e, o.2.leave.rise)
        | .ok _ => (.ok (), o.2.leave.rise.write o.2.top.out))))
      (r.map fun (w', out) => ({ w' with vars := w.vars }, out)) := by
  rcases r with e | ⟨w', out⟩
  · obtain ⟨pc, i', e', herror, hcaused⟩ := hcomes
    rw [herror]
    exact ⟨i, _, rfl, hcaused.inside⟩
  · obtain ⟨m', rfl, hm', hview'⟩ := hcomes
    rw [hview] at hview'
    have hresolve : m'.resolve = m' := by
      -- the scope around the template is still there
      have houter : m'.outer.map level = level m.top :: m.outer.map level := congrArg (·.outer) hview'
      have hroot : m'.isRoot = false := by
        cases hm' : m'.outer with
        | nil => simp [hm'] at houter
        | cons s rest => simp [State.isRoot, hm']
      rw [State.resolve, if_neg (by simp [hroot])]
    have hout : m'.top.out = out := congrArg (·.top.out) hview'
    have hleave : view m'.leave.rise = (view m).update { w' with vars := w.vars } [] :=
      (view_leave m').trans (by rw [hview', h.leave])
    refine ⟨m'.leave.rise.write out, by rw [hresolve, hout]; rfl, ⟨?_, ?_, ?_⟩, ?_⟩
    · exact (congrArg (·.session.canceled) (Render.shared_leave m')).trans hm'.running
    · have hdepth : m'.leave.shared.depth = depth + 1 := by rw [Render.shared_leave, hm'.depth]
      exact (congrArg (· - 1) hdepth).trans (Nat.add_sub_cancel depth 1)
    · have hsession : (m'.leave.rise.write out).shared.session = m'.shared.session :=
        congrArg (·.session) (Render.shared_leave m')
      rw [hsession]
      exact hm'.kept
    · rw [view_write (hleave ▸ h.update _ _), hleave, View.update_update, List.nil_append]

variable (hevaluator : host.evaluator = some evaluate)
include hevaluator

/-- Components do what they mean, when templates do that are rendered one deeper. -/
theorem setting_components {left : Nat} (hleft : left = (host.maxDepth - depth).toNat)
    {run : Program → State → Render.Outcome} (hrun : Answers Program.IsCode host depth run)
    (ih : ∀ rest, left = rest + 1 → ∀ nodes p m outer w, Compiled nodes p → Closed pages nodes →
      Serving (Stored library pages) (depth + 1) m →
      (view m).Shows outer w → ∃ o, Render.Ends host p { state := m } o ∧
        Comes (Stored library pages) (depth + 1) p (view m) o (interpretAll (evaluate false)
          (components (evaluate false) library host.maxDepth rest) outer 0 nodes w)) :
    Setting host run evaluate (components (evaluate false) library host.maxDepth left) pages (Stored library pages)
      depth := by
  refine ⟨hevaluator, fun i path vars m outer w hpath hm h => ?_⟩
  rw [renderTemplate, inScope]
  rcases openTemplate_cases hserves hcompile hm hpath vars with ⟨hdepth, hopen⟩ | ⟨hdepth, hcases⟩
  · obtain rfl : left = 0 := by omega
    rw [hopen]
    exact ⟨i, _, rfl, .itself⟩
  · obtain ⟨rest, rfl⟩ : ∃ rest, left = rest + 1 := ⟨left - 1, by omega⟩
    rw [components]
    rcases hcases with ⟨p, inner, hopen, ⟨nodes, hnodes, hcompiled, hclosed⟩, hinner, hview⟩ | ⟨e, m', hopen, hmissing⟩
    · rw [hopen, hnodes]
      dsimp only
      obtain ⟨o, hends, hcomes⟩ := ih rest rfl nodes p inner (w.vars :: outer) { w with vars } hcompiled hclosed hinner
        (hview ▸ h.enter vars)
      -- a run that answers comes to the same end
      have hsame : run p inner = o :=
        (hrun.ends p inner hcompiled.isCode (hinner.within hserves hcompile) hdepth).unique hends
      rw [hsame]
      exact agrees_of_comes hview h hcomes i
    · rw [hopen, hmissing]
      exact ⟨i, _, rfl, .itself⟩

/-- A run of the program of a template comes to what the template means. The induction is on how many templates may
still be rendered inside one another. -/
theorem exists_comes_interpretation (left : Nat) : ∀ depth : Nat, left = (host.maxDepth - depth).toNat →
    ∀ nodes p m outer w, Compiled nodes p → Closed pages nodes →
      Serving (Stored library pages) depth m → (view m).Shows outer w →
      ∃ o, Render.Ends host p { state := m } o ∧ Comes (Stored library pages) depth p (view m) o
        (interpretAll (evaluate false) (components (evaluate false) library host.maxDepth left) outer 0 nodes w) := by
  have hanswers (depth : Nat) : ∃ run, Answers Program.IsCode host depth run :=
    Render.exists_answers_of_isCode fun _ => id
  induction left with
  | zero =>
    intro depth hleft nodes p m outer w hp hclosed hm h
    obtain ⟨run, hrun⟩ := hanswers depth
    have hset := setting_components hserves hcompile hevaluator hleft hrun nofun
    exact exists_comes hserves hcompile hrun hset hp hclosed hm h
  | succ left ih =>
    intro depth hleft nodes p m outer w hp hclosed hm h
    obtain ⟨run, hrun⟩ := hanswers depth
    have hset := setting_components hserves hcompile hevaluator hleft hrun fun rest hrest => by
      cases hrest
      exact ih (depth + 1) (by omega)
    exact exists_comes hserves hcompile hrun hset hp hclosed hm h

end

/-! ### Renders -/

/-- Rendering on a root scope gives a result, when there are steps enough: its output with the placeholders filled in,
which is the output itself when there is no mark in it, with the sections and the stacks that it leaves; or its failure,
at an instruction of the template or of one that is rendered inside. -/
def Renders (host : Host) (p : Program) (data : Bindings) (shared : Render.Shared) (result : Result) : Prop :=
  ∃ n, ∀ limit, n ≤ limit →
    let outcome := Render.run { host with stepLimit := limit } p { top := { vars := data }, shared }
    match result with
    | .ok (w, out) => outcome.1 = .ok () ∧ outcome.2.top.out = outcome.2.shared.fill Render.maxPasses out ∧
        (mark ∉ out → outcome.2.top.out = out) ∧ outcome.2.shared.sections = w.sections ∧
        outcome.2.shared.pushed = w.pushed
    | .error e => ∃ pc i e', outcome.1 = .error (.instruction p.name pc i e') ∧ Caused e e'

/-- A template of control directives and blocks that compiles without errors has a program, and rendering it does what
its tree means, whatever the data and the evaluator, when the templates of its components are compiled from a library
of such templates. -/
theorem renders_interpretation (options : Options) (path : Bytes) (nodes : List Node) (hnodes : AreBlocks nodes)
    (hinlined : AreBlocks (inlined options nodes)) (t : Template)
    (ht : (generate registry options path false nodes).result = .ok t) (herrors : t.errors = []) :
    ∃ p, t.program = .ok p ∧ ∀ evaluate (host : Host) compile library pages, host.evaluator = some evaluate →
      host.compile = some compile → Serves compile library pages → Closed pages (inlined options nodes) →
      ∀ data (shared : Render.Shared), shared.session.canceled = false →
        (∀ entry ∈ shared.session.loader.programs, Stored library pages entry.1 entry.2) →
        Renders host p data shared
          (interpretAll (evaluate false)
            (components (evaluate false) library host.maxDepth (host.maxDepth - shared.depth).toNat) [] 0
            (inlined options nodes) { vars := data, sections := shared.sections, pushed := shared.pushed }) := by
  obtain ⟨t', ht', -, hstructured⟩ := structured_generate options path nodes
  obtain rfl : t' = t := Except.ok.inj (ht'.symm.trans ht)
  have hprogram := (Compile.structured_mergeLiterals hstructured).link t'.path
  refine ⟨_, hprogram, ?_⟩
  intro evaluate host compile library pages hevaluator hcompile hserves hclosed data shared hrunning hkept
  have hcompiled : Compiled (inlined options nodes) ⟨t'.path, mergeLiterals t'.instrs⟩ :=
    ⟨options, path, nodes, t', rfl, hnodes, hinlined, ht, herrors, hprogram⟩
  have hshows : (view { top := { vars := data }, shared }).Shows []
      { vars := data, sections := shared.sections, pushed := shared.pushed } := ⟨rfl, rfl⟩
  obtain ⟨o, hends, hcomes⟩ := exists_comes_interpretation hserves hcompile hevaluator _ shared.depth rfl
    (inlined options nodes) _ _ [] _ hcompiled hclosed ⟨hrunning, rfl, hkept⟩ hshows
  obtain ⟨n, hn⟩ := Render.exec_of_ends hends
  refine ⟨n, fun limit hlimit => ?_⟩
  have hrun : Render.run { host with stepLimit := limit } ⟨t'.path, mergeLiterals t'.instrs⟩
      { top := { vars := data }, shared } = o :=
    (Render.exec_stepLimit host limit limit _ _).trans (hn limit hlimit)
  rw [hrun]
  cases hresult : interpretAll (evaluate false)
      (components (evaluate false) library host.maxDepth (host.maxDepth - shared.depth).toNat) [] 0
      (inlined options nodes) { vars := data, sections := shared.sections, pushed := shared.pushed } with
  | error e =>
    rw [hresult] at hcomes
    exact hcomes
  | ok r =>
    obtain ⟨w, out⟩ := r
    rw [hresult] at hcomes
    obtain ⟨m, rfl, -, hview⟩ := hcomes
    have hroot : m.isRoot = true := by
      have houter : m.outer.map level = [] := congrArg (·.outer) hview
      simpa [State.isRoot] using houter
    have hout : m.top.out = out := congrArg (·.top.out) hview
    have hfilled : m.resolve = { m with top := { m.top with out := m.shared.fill Render.maxPasses out } } := by
      rw [State.resolve, if_pos hroot, hout]
    rw [hfilled]
    refine ⟨rfl, rfl, fun hmark => ?_, congrArg (·.sections) hview, congrArg (·.pushed) hview⟩
    exact Render.fill_text m.shared _ hmark

/-! ### Engines -/

section Engines
variable (e : Engine)

/-- The tree of a template that an engine can load, with its includes filled in. -/
def library : Library := fun path =>
  match (e.compileStep path false).program, e.resolver path with
  | .error f, _ => .error f
  | .ok _, .error f => .error f
  | .ok _, .ok src =>
    ((Markup.parse registry e.options.parse path src).mapError .diagnostic).map (inlined e.compileOptions)

theorem programOf_ok {t : Template} {p : Program} (h : Engine.programOf t = .ok p) :
    t.errors = [] ∧ t.program = .ok p := by
  unfold Engine.programOf at h
  split at h
  · rename_i herrors
    refine ⟨herrors, ?_⟩
    cases hp : t.program with
    | error f =>
      rw [hp] at h
      cases h
    | ok q =>
      rw [hp] at h
      exact congrArg _ (Except.ok.inj h)
  · cases h

variable {e}

theorem compileStep_ok (hregistry : e.registry.entries = registry.entries) {path : Bytes} {canceled : Bool}
    {p : Program} (h : (e.compileStep path canceled).program = .ok p) :
    canceled = false ∧ ∃ src nodes t, e.resolver path = .ok src ∧
      Markup.parse registry e.options.parse path src = .ok nodes ∧
      (generate registry e.compileOptions path false nodes).result = .ok t ∧ t.errors = [] ∧ t.program = .ok p := by
  unfold Engine.compileStep at h
  cases canceled with
  | true => cases h
  | false =>
    refine ⟨rfl, ?_⟩
    rw [if_neg Bool.false_ne_true] at h
    split at h
    · cases h
    · rename_i src hsrc
      dsimp only at h
      rw [Compile.eq_sealedAs hregistry, Compile.compileSource_sealed, Compile.compileSource] at h
      split at h
      · cases h
      · rename_i nodes hnodes
        obtain ⟨t, ht, hprogram⟩ := Render.bind_eq_ok h
        obtain ⟨herrors, hprogram⟩ := programOf_ok hprogram
        exact ⟨src, nodes, t, hsrc, hnodes, ht, herrors, hprogram⟩

theorem canceled_compileStep (hregistry : e.registry.entries = registry.entries) (path : Bytes) :
    (e.compileStep path false).canceled = false := by
  simp only [Engine.compileStep, Bool.false_eq_true, if_false]
  split
  · rfl
  · rename_i src _
    rw [Compile.eq_sealedAs hregistry, Compile.compileSource_sealed, Compile.compileSource]
    split
    · rfl
    · rename_i nodes _
      obtain ⟨t, ss, -, hcanceled, -⟩ := Compile.exists_statements_generate e.compileOptions path nodes
      exact hcanceled

/-- An engine with the standard directives compiles pages from its library, when they are control directives and
blocks, with components that are pages. -/
theorem serves_compileStep (hregistry : e.registry.entries = registry.entries) {pages : Bytes → Prop}
    (hpages : ∀ path, pages path → ∀ src nodes, e.resolver path = .ok src →
      Markup.parse registry e.options.parse path src = .ok nodes →
      AreBlocks nodes ∧ AreBlocks (inlined e.compileOptions nodes) ∧ Closed pages (inlined e.compileOptions nodes)) :
    Serves e.compileStep (library e) pages := by
  refine ⟨?_, ?_, ?_, fun path _ => canceled_compileStep hregistry path⟩
  · intro path canceled p hp
    obtain ⟨-, src, nodes, t, -, -, ht, -, hprogram⟩ := compileStep_ok hregistry hp
    exact ⟨registry, e.compileOptions, path, false, nodes, t, rfl, ht, hprogram⟩
  · intro path hpath p hp
    obtain ⟨-, src, nodes, t, hsrc, hnodes, ht, herrors, hprogram⟩ := compileStep_ok hregistry hp
    obtain ⟨hblocks, hinlined, hclosed⟩ := hpages path hpath src nodes hsrc hnodes
    have hlibrary : library e path = .ok (inlined e.compileOptions nodes) := by
      simp only [library, hp, hsrc, hnodes]
      rfl
    exact ⟨_, hlibrary, ⟨_, path, nodes, t, rfl, hblocks, hinlined, ht, herrors, hprogram⟩, hclosed⟩
  · intro path _ f hf
    simp only [library, hf]

end Engines

/-- A slot in a loop in an include, inside two components; and a layout, which is no part of this. -/
def cardPages : Assoc Bytes Bytes :=
  [("page", "@component('box', \x7btitle: 'T'\x7d)@component('card')@include('items', \x7bxs: [1, 2]\x7d)@end@end"),
    ("items", "@each(xs, 'x')@slot('last')<\x7b\x7b x \x7d\x7d>@end@end"), ("card", "[\x7b!! slots.last !!\x7d]"),
    ("box", "\x7b\x7b title \x7d\x7d(\x7b!! slot !!\x7d)"), ("main", "<main>@yield('body')</main>")]

def cardEngine : Engine where
  registry := registry
  resolver := Compile.Resolver.ofTable cardPages

def cards : List Bytes := ["card", "box"]

theorem serves_cardEngine : Serves cardEngine.compileStep (library cardEngine) (· ∈ cards) := by
  refine serves_compileStep rfl fun path hpath src nodes hsrc hnodes => ?_
  have hpages : ∀ entry ∈ cardPages, entry.1 ∈ cards → ((Markup.parse registry {} entry.1 entry.2).toOption.all
      fun nodes => AreBlocks nodes ∧ AreBlocks (inlined cardEngine.compileOptions nodes) ∧
        Closed (· ∈ cards) (inlined cardEngine.compileOptions nodes)) = true := by decide +kernel
  have hmem : (path, src) ∈ cardPages := by
    simp only [cardEngine, Compile.Resolver.ofTable] at hsrc
    split at hsrc
    · rename_i found hfound
      exact Except.ok.inj hsrc ▸ Assoc.mem_of_get? hfound
    · cases hsrc
  have hpage := hpages (path, src) hmem hpath
  have hparse : Markup.parse registry {} path src = .ok nodes := hnodes
  rw [hparse] at hpage
  exact of_decide_eq_true hpage

/-- The slot of the second turn is that of the inner component, whose output is the body of the outer one. -/
theorem renders_interpretation_nested :
    ∃ src nodes t p w, cardEngine.resolver "page" = .ok src ∧ Markup.parse registry {} "page" src = .ok nodes ∧
      (generate registry cardEngine.compileOptions "page" false nodes).result = .ok t ∧ t.program = .ok p ∧
      Renders cardEngine.host p [] {} (.ok (w, "T([<2>])")) := by
  have hread : ((cardEngine.resolver "page").toOption.any fun src =>
      (Markup.parse registry {} "page" src).toOption.any fun nodes =>
        decide (AreBlocks nodes ∧ AreBlocks (inlined cardEngine.compileOptions nodes) ∧
          Closed (· ∈ cards) (inlined cardEngine.compileOptions nodes)) &&
        ((generate registry cardEngine.compileOptions "page" false nodes).result.toOption.any (·.errors.isEmpty) &&
        (interpretAll (Render.expressions false) (components (Render.expressions false) (library cardEngine) 32 32) [] 0
          (inlined cardEngine.compileOptions nodes) { vars := [] }).toOption.any (·.2 == ("T([<2>])" : Bytes)))) = true := by
    decide +kernel
  obtain ⟨src, hsrc, hread⟩ := Render.exists_ok_of_any hread
  obtain ⟨nodes, hnodes, hread⟩ := Render.exists_ok_of_any hread
  simp only [Bool.and_eq_true, decide_eq_true_eq] at hread
  obtain ⟨⟨hblocks, hinlined, hclosed⟩, hcompiled, hmeaning⟩ := hread
  obtain ⟨t, ht, herrors⟩ := Render.exists_ok_of_any hcompiled
  obtain ⟨⟨w, out⟩, hout, htext⟩ := Render.exists_ok_of_any hmeaning
  obtain rfl : out = "T([<2>])" := eq_of_beq htext
  obtain ⟨p, hp, hrenders⟩ := renders_interpretation cardEngine.compileOptions "page" nodes hblocks hinlined t ht
    (List.isEmpty_iff.mp herrors)
  have hrenders := hrenders Render.expressions cardEngine.host cardEngine.compileStep (library cardEngine) _ rfl
    rfl serves_cardEngine hclosed [] {} rfl nofun
  have hresult : interpretAll (Render.expressions false) (components (Render.expressions false)
      (library cardEngine) cardEngine.host.maxDepth (cardEngine.host.maxDepth - (0 : Nat)).toNat) [] 0
      (inlined cardEngine.compileOptions nodes) { vars := [] } = .ok (w, "T([<2>])") := hout
  exact ⟨src, nodes, t, p, w, hsrc, hnodes, ht, hp, hresult ▸ hrenders⟩

end Stencil.Blocks
