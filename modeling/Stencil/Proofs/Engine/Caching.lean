import Stencil.Engine
import Stencil.Proofs.Compile.Reuse
import Stencil.Proofs.Compile.Sealing
import Stencil.Proofs.Render.Lockstep
import Stencil.Proofs.Render.Trace

/-! # Kept programs

An engine that keeps the programs of templates renders as one that compiles them anew each time, as long as
every edit drops the programs that depend on the template (`results_always_eq_never`). Dropping the template
alone is not enough: a program holds the templates that it includes. -/

namespace Stencil

open Stencil.Directive.Standard (registry)
open Stencil.Markup (Node Tag)

/-! ### Templates that change -/

namespace Compile

/-- The same templates with another text at a path. -/
def Resolver.set (r : Resolver) (path src : Bytes) : Resolver := fun p => if p = path then .ok src else r p

theorem Resolver.set_ne (r : Resolver) {path p : Bytes} (src : Bytes) (h : p ≠ path) : r.set path src p = r p :=
  if_neg h

/-- A compiled template depends on the template at a path: it includes it, or it fell back to the path because no
template was there. -/
inductive DependsOn (options : Markup.ParseOptions) (r : Resolver) (name src : Bytes) (t : Template) (path : Bytes) : Prop
  | includes (h : Assoc.has path t.deps = true)
  | fellBack {p text : Bytes} {nodes : List Node} {tag : Tag} {e : Failure} (went : WentInto r t.deps name src p text)
      (reads : Markup.parse registry options p text = .ok nodes) (mem : tag ∈ Node.tagsList nodes)
      (named : tag.name = "include") (fallback : fallbackPath? tag = some path) (missing : r path = .error e)

/-- A template compiles to the same once another one changed that it does not depend on. -/
theorem compileSource_set (options : Options) (name src : Bytes) (r : Resolver) (path text : Bytes) (t : Template)
    (ht : (compileSource registry { options with resolver := some r } name false src).result = .ok t)
    (herrors : t.errors = []) (hdepends : ¬DependsOn options.parse r name src t path) :
    compileSource registry { options with resolver := some (r.set path text) } name false src =
      compileSource registry { options with resolver := some r } name false src := by
  unfold compileSource at ht ⊢
  cases hnodes : Markup.parse registry options.parse name src with
  | error d => simp [hnodes] at ht
  | ok nodes =>
    simp only [hnodes] at ht ⊢
    obtain ⟨base, paths, hregistry, hpart, hparse, henv⟩ := options.env_among registry name nodes
    rw [generate_eq_outcome, henv] at ht
    rw [generate_eq_outcome, generate_eq_outcome, henv, henv]
    obtain ⟨env, henvOld⟩ : ∃ env, env = base.among r (prefetch r paths) := ⟨_, rfl⟩
    have henvNew : base.among (r.set path text) (prefetch (r.set path text) paths) =
        env.among (r.set path text) (prefetch (r.set path text) paths) := henvOld ▸ rfl
    have hregistry : env.registry = registry := henvOld ▸ hregistry
    have hparse : env.options = options.parse := henvOld ▸ hparse
    rw [← henvOld] at ht ⊢
    obtain ⟨st, hrun, hrunning, herrors', hdeps', -, heq⟩ := compileNodes_among hregistry (henvOld ▸ hpart)
      (henvOld ▸ finds_among base r paths) (finds_among env (r.set path text) paths) name nodes
    rw [hrun] at ht
    obtain rfl : (env.finish st).template name = t := Except.ok.inj ht
    -- what fell back to a path still does, since it is not the path that changed
    have hmissing {p source : Bytes} {ns : List Node} (hp : WentInto r st.deps name src p source)
        (hns : Markup.parse registry options.parse p source = .ok ns) :
        StaysMissing r (r.set path text) (Node.tagsList ns) := by
      intro tag htag hinclude missed hmissed e he
      have hne : missed ≠ path := by
        rintro rfl
        exact hdepends (.fellBack (hdeps' ▸ hp) hns htag hinclude hmissed he)
      exact ⟨e, (r.set_ne text hne).trans he⟩
    have hsettled : SettledWith r (r.set path text) env.options (Node.tagsList nodes) st := by
      refine ⟨hmissing (.inl ⟨rfl, rfl⟩) hnodes, herrors'.symm.trans herrors, hrunning, fun p hp => ?_,
        fun p source ns hp hsource hns => hmissing (.inr ⟨hp, hsource⟩) (hparse ▸ hns)⟩
      have hne : p ≠ path := by
        rintro rfl
        exact hdepends (.includes (hdeps' ▸ hp))
      exact r.set_ne text hne
    rw [henvNew, start_among env hregistry, heq hsettled, hrun]
    simp only [Env.outcome, finish_among env hregistry]

/-- With the standard directives nothing cancels a compilation. -/
theorem compileSource_running (options : Options) (name src : Bytes) :
    (compileSource registry options name false src).canceled = false := by
  unfold compileSource
  split
  · rfl
  · rename_i nodes _
    obtain ⟨-, -, -, hrunning, -⟩ := exists_statements_generate options name nodes
    exact hrunning

theorem seals_of_compileSource {options : Options} {name src : Bytes} {t : Template}
    (h : (compileSource registry options name false src).result = .ok t) :
    (compileSource registry options name false src).seals = true := by
  unfold compileSource at h ⊢
  split at h
  · cases h
  · simp only [generate_eq_outcome]
    unfold Env.outcome
    split <;> rfl

end Compile

/-! ### Kept programs -/

theorem Loader.kept?_store {l : Loader} {path name : Bytes} {p q : Program}
    (h : (l.store path p).kept? name = some q) : (name = path ∧ q = p) ∨ l.kept? name = some q := by
  unfold Loader.store Loader.kept? at *
  cases hpolicy : l.policy with
  | never => simp [hpolicy] at h
  | always =>
    simp only [hpolicy] at h ⊢
    by_cases hname : name = path
    · subst hname
      rw [Assoc.get?_insert_self] at h
      exact .inl ⟨rfl, (Option.some.inj h).symm⟩
    · exact .inr (Assoc.get?_insert_ne hname p l.programs ▸ h)

theorem Loader.kept?_store_self {l : Loader} {path : Bytes} {p q : Program}
    (h : (l.store path p).kept? path = some q) : q = p := by
  unfold Loader.store Loader.kept? at h
  cases hpolicy : l.policy with
  | never => simp [hpolicy] at h
  | always =>
    simp only [hpolicy, Assoc.get?_insert_self] at h
    exact (Option.some.inj h).symm

theorem Loader.kept?_invalidate {l : Loader} {path name : Bytes} {p : Program}
    (h : (l.invalidate path).kept? name = some p) : name ≠ path ∧ l.kept? name = some p := by
  have herase : ∀ programs : Assoc Bytes Program, Assoc.get? name (Assoc.erase path programs) = some p →
      name ≠ path ∧ Assoc.get? name programs = some p := by
    intro programs
    induction programs with
    | nil => nofun
    | cons e rest ih =>
      intro h
      obtain ⟨key, q⟩ := e
      by_cases hkey : key = path
      · have hrest : Assoc.get? name (Assoc.erase path rest) = some p := by simpa [Assoc.erase, hkey] using h
        obtain ⟨hne, hget⟩ := ih hrest
        exact ⟨hne, by rw [Assoc.get?, if_neg (hkey ▸ hne.symm), hget]⟩
      · have hcons : Assoc.get? name ((key, q) :: Assoc.erase path rest) = some p := by
          simpa [Assoc.erase, hkey] using h
        by_cases hname : key = name
        · rw [Assoc.get?, if_pos hname] at hcons ⊢
          exact ⟨hname ▸ hkey, hcons⟩
        · rw [Assoc.get?, if_neg hname] at hcons ⊢
          exact ih hcons
  unfold Loader.kept? Loader.invalidate at *
  cases hpolicy : l.policy with
  | never => simp [hpolicy] at h
  | always =>
    simp only [hpolicy] at h ⊢
    exact herase l.programs h

theorem Loader.kept?_invalidateAll {name : Bytes} {p : Program} (paths : List Bytes) {l : Loader}
    (h : (paths.foldl Loader.invalidate l).kept? name = some p) : name ∉ paths ∧ l.kept? name = some p := by
  induction paths generalizing l with
  | nil => exact ⟨List.not_mem_nil, h⟩
  | cons path paths ih =>
    obtain ⟨hnot, hkept⟩ := ih h
    obtain ⟨hne, hkept⟩ := Loader.kept?_invalidate hkept
    exact ⟨fun hmem => (List.mem_cons.mp hmem).elim hne hnot, hkept⟩

/-- A compiler that is not cancelled on the way, and seals the registry when it succeeds. -/
structure CompileStep.Steady (compile : CompileStep) : Prop where
  running : ∀ path, (compile path false).canceled = false
  seals : ∀ path p, (compile path false).program = .ok p → (compile path false).seals = true

/-- The programs that an activity keeps are those that would be compiled now. -/
structure Session.Fresh (compile : CompileStep) (s : Session) : Prop where
  running : s.canceled = false
  kept : ∀ path p, s.loader.kept? path = some p → (compile path false).program = .ok p ∧ s.isSealed = true

/-- A load gives what would be compiled now, whether the program is kept or not. -/
theorem Session.Fresh.load {compile : CompileStep} (hcompile : compile.Steady) {s : Session} (hs : s.Fresh compile)
    (path : Bytes) :
    (s.load compile path).1 = (compile path false).program.mapError (.within ("failed to load " ++ path)) ∧
      (s.load compile path).2.Fresh compile ∧
      (s.load compile path).2.isSealed = (s.isSealed || (compile path false).seals) ∧
      (s.load compile path).2.loader.policy = s.loader.policy := by
  unfold Session.load
  cases hkept : s.loader.kept? path with
  | some p =>
    obtain ⟨hprogram, hsealed⟩ := hs.kept path p hkept
    exact ⟨by rw [hprogram]; rfl, ⟨hs.running, hs.kept⟩, by simp [hsealed], rfl⟩
  | none =>
    have hrunning := hcompile.running path
    simp only [hs.running]
    cases hprogram : (compile path false).program with
    | error e =>
      refine ⟨rfl, ⟨hrunning, fun name q hq => ?_⟩, rfl, rfl⟩
      obtain ⟨hq, hsealed⟩ := hs.kept name q hq
      exact ⟨hq, by simp [hsealed]⟩
    | ok p =>
      have hseals := hcompile.seals path p hprogram
      refine ⟨rfl, ⟨hrunning, fun name q hq => ?_⟩, rfl, ?_⟩
      · rcases Loader.kept?_store hq with ⟨rfl, rfl⟩ | hq
        · exact ⟨hprogram, by simp [hseals]⟩
        · exact ⟨(hs.kept name q hq).1, by simp [hseals]⟩
      · unfold Loader.store
        cases s.loader.policy <;> simp

/-- An activity that keeps programs, and one that keeps none. -/
structure Session.Matches (compile : CompileStep) (s s' : Session) : Prop where
  fresh : s.Fresh compile
  fresh' : s'.Fresh compile
  never : s'.loader.policy = .never
  isSealed : s'.isSealed = s.isSealed

theorem Session.Matches.load {compile : CompileStep} (hcompile : compile.Steady) {s s' : Session}
    (h : s.Matches compile s') (path : Bytes) : (s'.load compile path).1 = (s.load compile path).1 ∧
      (s.load compile path).2.Matches compile (s'.load compile path).2 := by
  obtain ⟨hresult, hfresh, hsealed, -⟩ := h.fresh.load hcompile path
  obtain ⟨hresult', hfresh', hsealed', hpolicy'⟩ := h.fresh'.load hcompile path
  refine ⟨hresult'.trans hresult.symm, hfresh, hfresh', hpolicy'.trans h.never, ?_⟩
  rw [hsealed, hsealed', h.isSealed]

/-! ### Engines -/

namespace Engine

/-- A new engine with a policy. -/
def withPolicy (e : Engine) (policy : Policy) : Engine := { e with loader := { policy } }

/-- What happens to an engine: a template gets another text, and the programs of it and of some other ones are
dropped; or a template is rendered. -/
inductive Action where
  | edit (path src : Bytes) (others : List Bytes)
  | render (path : Bytes) (data : Bindings)

/-- The template at a path has another text. -/
def edit (e : Engine) (path src : Bytes) : Engine := { e with resolver := e.resolver.set path src }

/-- The engine after an action. -/
def next (e : Engine) : Action → Engine
  | .edit path src others => (path :: others).foldl invalidate (e.edit path src)
  | .render path data => (e.render path data false).2

/-- The results of the renders among some actions. -/
def results (e : Engine) : List Action → List (Except Failure Bytes)
  | [] => []
  | .edit path src others :: rest => (e.next (.edit path src others)).results rest
  | .render path data :: rest => (e.render path data false).1 :: (e.next (.render path data)).results rest

/-- A template as it is now depends on the one at a path. -/
def DependsOn (e : Engine) (name path : Bytes) : Prop :=
  ∃ src t, e.resolver name = .ok src ∧
    (Compile.compileSource Directive.Standard.registry e.compileOptions name false src).result = .ok t ∧
    Compile.DependsOn e.options.parse e.resolver name src t path

/-- Each edit drops the kept programs that depend on the template. -/
def DropsDependents (e : Engine) : List Action → Prop
  | [] => True
  | .render path data :: rest => (e.next (.render path data)).DropsDependents rest
  | .edit path src others :: rest =>
    (∀ name ∈ Assoc.keys e.loader.programs, e.DependsOn name path → name = path ∨ name ∈ others) ∧
      (e.next (.edit path src others)).DropsDependents rest

section
variable {e : Engine} (he : e.registry.entries = Directive.Standard.registry.entries)
include he

theorem compileSource_eq (options : Compile.Options) (path src : Bytes) :
    Compile.compileSource e.registry options path false src =
      Compile.compileSource Directive.Standard.registry options path false src := by
  rw [Compile.eq_sealedAs he, Compile.compileSource_sealed]

theorem steady_compileStep : e.compileStep.Steady := by
  constructor
  · intro path
    unfold compileStep
    rw [if_neg Bool.false_ne_true]
    split
    · rfl
    · rw [compileSource_eq he]
      exact Compile.compileSource_running _ _ _
  · intro path p hp
    unfold compileStep at hp ⊢
    rw [if_neg Bool.false_ne_true] at hp ⊢
    split at hp
    · cases hp
    · rename_i src _
      rw [compileSource_eq he] at hp
      simp only [compileSource_eq he]
      cases hresult : (Compile.compileSource Directive.Standard.registry e.compileOptions path false src).result with
      | error f => simp [hresult, Except.bind] at hp
      | ok t => exact Compile.seals_of_compileSource hresult

/-- An engine that keeps programs, and one that keeps none. -/
structure Pairs (e e' : Engine) : Prop where
  same : e' = { e with loader := e'.loader }
  sessions : (e.session false).Matches e.compileStep (e'.session false)

omit he in
/-- Activities seal the registry at most, and what is compiled stays the same. -/
theorem compileStep_after (s : Session) : (e.after s).compileStep = e.compileStep := by
  have hsource (path src : Bytes) : Compile.compileSource (e.after s).registry e.compileOptions path false src =
      Compile.compileSource e.registry e.compileOptions path false src :=
    Compile.compileSource_sealed s.isSealed e.registry _ _ _
  have hoptions : (e.after s).compileOptions = e.compileOptions := rfl
  have hresolver : (e.after s).resolver = e.resolver := rfl
  funext path canceled
  cases canceled with
  | true => simp only [compileStep, if_true]
  | false => simp only [compileStep, hoptions, hresolver, Bool.false_eq_true, if_false, hsource]

omit he in
theorem Pairs.after {e' : Engine} (h : e.Pairs e') {s s' : Session} (hs : s.Matches e.compileStep s') :
    (e.after s).Pairs (e'.after s') := by
  have hsession (e : Engine) {s : Session} (hs : s.canceled = false) : (e.after s).session false = s := by
    cases s
    cases hs
    rfl
  refine ⟨?_, ?_⟩
  · rw [h.same]
    simp only [Engine.after, hs.isSealed]
  · rw [hsession e hs.fresh.running, hsession e' hs.fresh'.running, compileStep_after]
    exact hs

theorem Pairs.render {e' : Engine} (h : e.Pairs e') (path : Bytes) (data : Bindings) :
    (e'.render path data false).1 = (e.render path data false).1 ∧
      (e.render path data false).2.Pairs (e'.render path data false).2 := by
  have hstep : e'.compileStep = e.compileStep := by rw [h.same]; rfl
  have hhost : e'.host = e.host := by rw [h.same]; rfl
  have hloads : Render.LoadsAlike e.host (Session.Matches e.compileStep) := by
    refine ⟨fun s s' hs => hs.fresh'.running.trans hs.fresh.running.symm, fun s s' hs compile hcompile name => ?_⟩
    cases hcompile
    exact hs.load (steady_compileStep he) name
  obtain ⟨hresult, hloaded⟩ := h.sessions.load (steady_compileStep he) path
  unfold Engine.render
  rw [hstep]
  rcases hload : (e.session false).load e.compileStep path with ⟨f | p, s⟩ <;>
    rcases hload' : (e'.session false).load e.compileStep path with ⟨f' | p', s'⟩ <;>
    rw [hload, hload'] at hresult hloaded <;> cases hresult
  · exact ⟨rfl, h.after hloaded⟩
  · unfold runProgram
    have hframes : Render.FramesAlike (Session.Matches e.compileStep)
        { state := { top := { vars := data }, shared := { session := s } } }
        { state := { top := { vars := data }, shared := { session := s' } } } := ⟨⟨hloaded, rfl⟩, rfl⟩
    obtain ⟨hresult, hstate⟩ := Render.alike_exec hloads e.host.stepLimit p hframes
    rw [hhost]
    unfold Render.run
    dsimp only
    rw [hresult, hstate.top]
    have hpairs := h.after hstate.session
    split
    · exact ⟨rfl, hpairs⟩
    · exact ⟨rfl, hpairs⟩

/-- What a template compiles to once another one changed that it does not depend on. -/
theorem compileStep_edit {name path : Bytes} (src : Bytes) {p : Program} (hp : (e.compileStep name false).program = .ok p)
    (hne : name ≠ path) (hdepends : ¬e.DependsOn name path) :
    ((e.edit path src).compileStep name false).program = .ok p := by
  unfold compileStep at hp ⊢
  rw [if_neg Bool.false_ne_true] at hp ⊢
  have hname : (e.edit path src).resolver name = e.resolver name := e.resolver.set_ne src hne
  rw [hname]
  split at hp
  · cases hp
  · rename_i text htext
    rw [compileSource_eq he] at hp
    cases hresult : (Compile.compileSource Directive.Standard.registry e.compileOptions name false text).result with
    | error f => simp [hresult, Except.bind] at hp
    | ok t =>
      have herrors : t.errors = [] := by
        by_contra herrors
        simp [hresult, Except.bind, programOf, herrors] at hp
      have hsame := Compile.compileSource_set e.options name text e.resolver path src t hresult herrors
        fun h => hdepends ⟨text, t, htext, hresult, h⟩
      have hnew : Compile.compileSource (e.edit path src).registry (e.edit path src).compileOptions name false text =
          Compile.compileSource Directive.Standard.registry e.compileOptions name false text :=
        (compileSource_eq he _ _ _).trans hsame
      simp only [hnew]
      exact hp

end

theorem foldl_invalidate (e : Engine) (paths : List Bytes) :
    paths.foldl invalidate e = { e with loader := paths.foldl Loader.invalidate e.loader } := by
  induction paths generalizing e with
  | nil => rfl
  | cons path paths ih => exact ih (e.invalidate path)

theorem next_edit (e : Engine) (path src : Bytes) (others : List Bytes) : e.next (.edit path src others) =
    { e.edit path src with loader := (path :: others).foldl Loader.invalidate e.loader } :=
  foldl_invalidate (e.edit path src) (path :: others)

theorem mem_keys_of_kept? {l : Loader} {name : Bytes} {p : Program} (h : l.kept? name = some p) :
    name ∈ Assoc.keys l.programs := by
  unfold Loader.kept? at h
  split at h
  · exact List.mem_map.mpr ⟨(name, p), Assoc.mem_of_get? h, rfl⟩
  · cases h

theorem Pairs.edit {e e' : Engine} (he : e.registry.entries = Directive.Standard.registry.entries) (h : e.Pairs e')
    (path src : Bytes) {others : List Bytes}
    (hdrops : ∀ name ∈ Assoc.keys e.loader.programs, e.DependsOn name path → name = path ∨ name ∈ others) :
    (e.next (.edit path src others)).Pairs (e'.next (.edit path src others)) := by
  have hsteps (l : Loader) : { e.edit path src with loader := l }.compileStep = (e.edit path src).compileStep := rfl
  have hnever : ((path :: others).foldl Loader.invalidate e'.loader).policy = .never :=
    List.foldlRecOn (motive := fun l : Loader => l.policy = .never) (path :: others) Loader.invalidate h.sessions.never
      fun _ hl _ _ => hl
  rw [next_edit, next_edit]
  refine ⟨?_, ⟨rfl, fun name p hp => ?_⟩, ⟨rfl, fun name p hp => ?_⟩, hnever, h.sessions.isSealed⟩
  · rw [h.same]
    rfl
  · obtain ⟨hnot, hkept⟩ := Loader.kept?_invalidateAll (path :: others) hp
    obtain ⟨hprogram, hsealed⟩ := h.sessions.fresh.kept name p hkept
    have hdepends : ¬e.DependsOn name path := fun hd =>
      hnot (List.mem_cons.mpr (hdrops name (mem_keys_of_kept? hkept) hd))
    have hne : name ≠ path := fun heq => hnot (heq ▸ List.mem_cons_self)
    rw [hsteps]
    exact ⟨compileStep_edit he src hprogram hne hdepends, hsealed⟩
  · have hnone : ((path :: others).foldl Loader.invalidate e'.loader).kept? name = none := by
      rw [Loader.kept?, hnever]
    cases hnone.symm.trans hp

theorem entries_render (e : Engine) (path : Bytes) (data : Bindings) :
    (e.render path data false).2.registry.entries = e.registry.entries := by
  unfold render
  split
  · rfl
  · unfold runProgram
    dsimp only
    split <;> rfl

/-- The engine that keeps programs renders as the one that compiles them each time. The induction is on the actions,
and between them the kept programs are those that would be compiled. -/
theorem results_of_pairs {e e' : Engine} (he : e.registry.entries = Directive.Standard.registry.entries)
    (h : e.Pairs e') (actions : List Action) (hdrops : e.DropsDependents actions) :
    e'.results actions = e.results actions := by
  induction actions generalizing e e' with
  | nil => rfl
  | cons action rest ih =>
    cases action with
    | edit path src others =>
      obtain ⟨hothers, hrest⟩ := hdrops
      have hentries : (e.next (.edit path src others)).registry.entries = Directive.Standard.registry.entries := by
        rw [next_edit]
        exact he
      exact ih hentries (h.edit he path src hothers) hrest
    | render path data =>
      obtain ⟨hresult, hpairs⟩ := Pairs.render he h path data
      rw [results, results, hresult]
      exact congrArg _ (ih ((entries_render e path data).trans he) hpairs hdrops)

/-- Engines over the same templates that keep programs and that never do give the same results, if each edit drops the
kept programs that depend on the template. -/
theorem results_always_eq_never (e : Engine) (he : e.registry.entries = Directive.Standard.registry.entries)
    (actions : List Action) (hdrops : (e.withPolicy .always).DropsDependents actions) :
    (e.withPolicy .always).results actions = (e.withPolicy .never).results actions := by
  have hpairs : (e.withPolicy .always).Pairs (e.withPolicy .never) :=
    ⟨rfl, ⟨rfl, nofun⟩, ⟨rfl, nofun⟩, rfl, rfl⟩
  exact (results_of_pairs (e := e.withPolicy .always) he hpairs actions hdrops).symm

/-- A page with a partial. -/
def navEngine : Engine where
  registry := Directive.Standard.registry
  resolver := Compile.Resolver.ofTable [("page", "@include('nav')"), ("nav", "a")]
  stepLimit := 10

/-- The edit of the partial drops the page as well. -/
theorem results_always_eq_never_page :
    let actions : List Action := [.render "page" [], .edit "nav" "b" ["page"], .render "page" []]
    (navEngine.withPolicy .always).DropsDependents actions ∧
      (navEngine.withPolicy .always).results actions = (navEngine.withPolicy .never).results actions := by
  intro actions
  have hkeys : Assoc.keys ((navEngine.withPolicy .always).next (.render "page" [])).loader.programs = ["page"] := by
    decide +kernel
  have hdrops : (navEngine.withPolicy .always).DropsDependents actions := by
    refine ⟨fun name hname _ => ?_, trivial⟩
    rw [hkeys] at hname
    exact .inr hname
  exact ⟨hdrops, results_always_eq_never navEngine rfl actions hdrops⟩

/-- Dropping the program of the template alone is not enough. -/
theorem not_results_always_eq_never : ¬ ∀ (e : Engine) (actions : List Action),
    e.registry.entries = Directive.Standard.registry.entries →
      (∀ path src others, .edit path src others ∈ actions → others = []) →
      (e.withPolicy .always).results actions = (e.withPolicy .never).results actions := by
  intro h
  let actions : List Action := [.render "page" [], .edit "nav" "b" [], .render "page" []]
  have hsame := h navEngine actions rfl (by simp [actions])
  have hdiffer : ((navEngine.withPolicy .always).results actions).map Except.toOption ≠
      ((navEngine.withPolicy .never).results actions).map Except.toOption := by decide +kernel
  exact hdiffer (by rw [hsame])

end Engine

end Stencil
