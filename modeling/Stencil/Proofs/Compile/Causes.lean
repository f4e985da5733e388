import Stencil.Proofs.Compile.Asking
import Stencil.Proofs.Compile.Discipline
import Stencil.Proofs.Compile.Completion
import Stencil.Proofs.Compile.Reuse
import Stencil.Proofs.Markup.Lines

/-! # Errors point at their causes

The path of an error is that of the include that is open when it is reported, its place that of a head which some
reading made. Whatever waits keeps to the heads of the template that it was read from (`tracing`), and an error is
reported only about the node or the directive at hand (`moves_next`), so that the two agree. -/

namespace Stencil.Compile

open Stencil.Directive
open Stencil.Markup (Node Tag Position PointsAt pointsAt_of_parse)
open StateTransition (Reaches)

/-! ### What a moment changes -/

/-- The moment is about a node, or about the end of a directive, with this head. -/
inductive Concerns (m : Moment) (tag : Tag) : Prop
  | node {way : Way} {n : Node} (hdoing : m.doing = .node way n) (htag : n.tag? = some tag)
  | directive {mark : Mark} {aside : Option Bindings} {ws : List Waiting}
      (hwaiting : m.waiting = .directive tag mark aside :: ws)

/-- The error names a head of the template at hand. -/
structure Names (env : Env) (d : Diagnostic) (tag : Tag) : Prop where
  name : d.name = tag.name
  path : d.path = env.currentPath
  place : d.at? = some tag.span.start

/-- New errors with a place are about what the moment is about; dependencies stay, and those that are entered are among
them. -/
structure Moves (env : Env) (m m' : Moment) : Prop where
  errors : ∀ d ∈ m'.state.errors,
    d ∈ m.state.errors ∨ d.at? = none ∨ ∃ tag, Concerns m tag ∧ Names (env.during m) d tag
  deps : ∀ path, Assoc.has path m.state.deps = true → Assoc.has path m'.state.deps = true
  embeds : ∀ path ∈ m'.embeds, path ∈ m.embeds ∨ Assoc.has path m'.state.deps = true

section
variable {env : Env} {m m' : Moment}

theorem moves_of_same (herrors : m'.state.errors = m.state.errors) (hdeps : m'.state.deps = m.state.deps)
    (hembeds : ∀ path ∈ m'.embeds, path ∈ m.embeds) : Moves env m m' :=
  ⟨fun _ hd => .inl (herrors ▸ hd), fun _ h => hdeps ▸ h, fun path h => .inl (hembeds path h)⟩

theorem moves_of_report {d : Diagnostic} (herrors : m'.state.errors = m.state.errors ++ [d])
    (hdeps : m'.state.deps = m.state.deps) (hembeds : m'.embeds = m.embeds)
    (h : d.at? = none ∨ ∃ tag, Concerns m tag ∧ Names (env.during m) d tag) : Moves env m m' := by
  refine ⟨fun e he => ?_, fun _ h => hdeps ▸ h, fun _ h => .inl (hembeds ▸ h)⟩
  rw [herrors] at he
  rcases List.mem_append.mp he with he | he
  · exact .inl he
  · exact List.mem_singleton.mp he ▸ .inr h

theorem names_reject (env : Env) (st : State) (tag : Tag) (kind : DiagnosticKind) (message : Bytes) :
    ∃ d, (st.reject env tag kind message).errors = st.errors ++ [d] ∧
      (st.reject env tag kind message).deps = st.deps ∧ Names env d tag :=
  ⟨_, rfl, rfl, rfl, rfl, rfl⟩

/-- A node that is no directive is refused or leaves the errors. -/
theorem visit_change {way : Way} {n : Node} {st st' : State} (h : env.visit way n st = .change st') :
    st'.deps = st.deps ∧ (st'.errors = st.errors ∨
      ∃ d tag, n.tag? = some tag ∧ st'.errors = st.errors ++ [d] ∧ Names env d tag) := by
  have hreject (tag : Tag) (kind : DiagnosticKind) (message : Bytes) (htag : n.tag? = some tag)
      (h : Visit.change (st.reject env tag kind message) = .change st') :
      st'.deps = st.deps ∧ (st'.errors = st.errors ∨
        ∃ d tag, n.tag? = some tag ∧ st'.errors = st.errors ++ [d] ∧ Names env d tag) := by
    cases h
    obtain ⟨d, herrors, hdeps, hnames⟩ := names_reject env st tag kind message
    exact ⟨hdeps, .inr ⟨d, tag, htag, herrors, hnames⟩⟩
  cases way with
  | children which =>
    cases n with
    | text value span =>
      cases h
      exact ⟨rfl, .inl rfl⟩
    | interpolation expr escaped span =>
      cases h
      split <;> exact ⟨rfl, .inl rfl⟩
    | part owner tag children => exact hreject tag _ _ rfl h
    | directive tag children =>
      rw [Env.visit] at h
      split at h
      · exact hreject tag _ _ rfl h
      · exact hreject tag _ _ rfl h
      · exact hreject tag _ _ rfl h
      · split at h
        · exact hreject tag _ _ rfl h
        · cases h
  | chain d owner =>
    cases n with
    | text _ _ | interpolation _ _ _ | directive _ _ =>
      cases h
      exact ⟨rfl, .inl rfl⟩
    | part parent tag children =>
      rw [Env.visit] at h
      split at h
      · exact hreject tag _ _ rfl h
      · cases h

theorem reply_keeps (env : Env) (children : List Node) (s : Script Unit) (st : State) :
    (env.reply children s st).2.errors = st.errors ∧ (env.reply children s st).2.deps = st.deps := by
  cases s <;> exact ⟨rfl, rfl⟩

theorem settle_keeps (env : Env) (st : State) (tag : Tag) (mark : Mark) (aside : Option Bindings) (r : Except Failure Unit) :
    (st.settle env tag mark aside r).deps = st.deps ∧ ((st.settle env tag mark aside r).errors = st.errors ∨
      ∃ d, (st.settle env tag mark aside r).errors = st.errors ++ [d] ∧ Names env d tag) := by
  cases r with
  | ok u => cases aside <;> exact ⟨rfl, .inl rfl⟩
  | error e => cases aside <;> exact ⟨rfl, .inr ⟨_, rfl, rfl, rfl, rfl⟩⟩

theorem moves_node {way : Way} {n : Node} (hdoing : m.doing = .node way n) : Moves env m (m.node env way n) := by
  rw [Moment.node]
  split
  · rename_i st hvisit
    obtain ⟨hdeps, herrors | ⟨d, tag, htag, herrors, hnames⟩⟩ := visit_change hvisit
    · exact moves_of_same herrors hdeps fun _ h => h
    · exact moves_of_report herrors hdeps rfl (.inr ⟨tag, .node hdoing htag, hnames⟩)
  · rename_i tag site aside hvisit
    cases aside <;> exact moves_of_same rfl rfl fun _ h => h

theorem moves_script (site : Site) (s : Script Unit) : Moves env m (m.script env site s) := by
  cases s with
  | done _ | fail _ | abort _ | compile _ _ | chain _ => exact moves_of_same rfl rfl fun _ h => h
  | embed path src bindings next =>
    rw [Moment.script]
    split
    · exact moves_of_same rfl rfl fun _ h => h
    · have hdeps := deps_including m.state m.part path src bindings
      have herrors : (m.state.including m.part path src bindings).errors = m.state.errors := by
        unfold State.including
        dsimp only
        split <;> rfl
      refine ⟨fun d hd => .inl (herrors ▸ hd), fun p hp => ?_, fun p hp => ?_⟩
      · show Assoc.has p (m.state.including m.part path src bindings).deps = true
        rw [hdeps, Assoc.has_insert, hp, Bool.or_true]
      · rcases List.mem_append.mp hp with hp | hp
        · exact .inl hp
        · right
          show Assoc.has p (m.state.including m.part path src bindings).deps = true
          rw [hdeps, Assoc.has_insert, List.mem_singleton.mp hp, decide_eq_true rfl, Bool.true_or]
  | emit _ _ _ | newLabel _ | add _ _ | loader _ | useLoader _ _ | literalText _ _ | resolve _ _ | getState _ _
  | setState _ _ _ | getData _ _ | setData _ _ _ | log _ _ | cancel _ =>
    obtain ⟨herrors, hdeps⟩ := reply_keeps (env.during m) site.children _ m.state
    exact moves_of_same herrors hdeps fun _ h => h

theorem moves_resume {w : Waiting} {ws : List Waiting} (hwaiting : m.waiting = w :: ws) (r : Except Failure Unit) :
    Moves env m ({ m with waiting := ws }.resume env r w) := by
  cases w with
  | list _ _ | script _ _ | body _ => exact moves_of_same rfl rfl fun _ h => h
  | directive tag mark aside =>
    obtain ⟨hdeps, herrors | ⟨d, herrors, hnames⟩⟩ := settle_keeps (env.during m) m.state tag mark aside r
    · exact moves_of_same herrors hdeps fun _ h => h
    · exact moves_of_report herrors hdeps rfl (.inr ⟨tag, .directive hwaiting, hnames⟩)
  | inclusion =>
    cases r <;> exact moves_of_same rfl rfl fun _ h => List.mem_of_mem_dropLast h
  | hook d mark ds =>
    cases r with
    | ok u => exact moves_of_same rfl rfl fun _ h => h
    | error e => exact moves_of_report rfl rfl rfl (.inl rfl)
  | ending => cases r <;> exact moves_of_same rfl rfl fun _ h => h

theorem moves_next (h : m' ∈ m.next env) : Moves env m m' := by
  rw [Moment.next] at h
  split at h
  · rename_i ds _
    cases h
    cases ds with
    | nil => exact moves_of_same rfl rfl fun _ h => h
    | cons d ds =>
      rw [Moment.hooks]
      split <;> exact moves_of_same rfl rfl fun _ h => h
  · rename_i way ns _
    cases h
    cases ns with
    | nil => exact moves_of_same rfl rfl fun _ h => h
    | cons n ns =>
      rw [Moment.list]
      split
      · split <;> exact moves_of_same rfl rfl fun _ h => h
      · exact moves_of_same rfl rfl fun _ h => h
  · rename_i hdoing
    cases h
    exact moves_node hdoing
  · cases h
    exact moves_script _ _
  · split at h
    · cases h
    · rename_i hwaiting
      cases h
      exact moves_resume hwaiting _

end

/-! ### Heads and their templates -/

/-- The source of a template: of the one that is compiled, or what the resolver finds. -/
def sourceAt (path src : Bytes) (resolver : Option Resolver) (p : Bytes) : Option Bytes :=
  if p = path then some src else resolver.bind fun r => (r p).toOption

def FoundBy (resolver : Option Resolver) (p text : Bytes) : Prop := ∃ r, resolver = some r ∧ r p = .ok text

/-- In the source of the template the head stands where it says. -/
def Traced (source : Bytes → Option Bytes) (path : Bytes) (tag : Tag) : Prop :=
  ∃ text, source path = some text ∧ PointsAt text tag.name tag.span.start

/-- All heads stand in the template that they are compiled for, and no hook includes what it did not find. -/
def tracing (source : Bytes → Option Bytes) (finds : Bytes → Bytes → Prop) : Discipline where
  node path way n :=
    (∀ tag ∈ n.tags, Traced source path tag) ∧ ∀ d owner, way = .chain d owner → d.AsksDeep (fun _ => True) finds
  site path site :=
    site.definition.AsksDeep (fun _ => True) finds ∧ ∀ n ∈ site.children, ∀ tag ∈ n.tags, Traced source path tag
  script s := s.Asks (fun _ => True) finds
  tag path tag := Traced source path tag

section
variable {source : Bytes → Option Bytes} {finds : Bytes → Bytes → Prop} {env : Env}

theorem traced_of_parse {r : Registry} {options : Markup.ParseOptions} {path text : Bytes} {nodes : List Node}
    (h : Markup.parse r options path text = .ok nodes) (hsource : source path = some text) :
    ∀ n ∈ nodes, (tracing source finds).node path (.children .all) n :=
  fun n hn => ⟨fun tag htag => ⟨text, hsource, pointsAt_of_parse h tag (Node.mem_tagsList.mpr ⟨n, hn, htag⟩)⟩, nofun⟩

theorem lawful_tracing (h : env.registry.Asks (fun _ => True) finds)
    (hfinds : ∀ (m : Moment) path text, (env.during m).resolve m.state path = .ok text → finds path text)
    (hsource : ∀ path text, path ≠ env.unit.path → finds path text → source path = some text) :
    (tracing source finds).Lawful env where
  lives := by
    rintro path way n tag site ⟨htags, hway⟩ hleads
    cases hleads with
    | @directive which tag children d hproblem hlookup =>
      obtain ⟨htag, hchildren⟩ := List.forall_mem_cons.mp htags
      have hd := h.lookup tag.name d hlookup
      refine ⟨⟨hd, fun n hn t ht => hchildren t (Node.mem_tagsList.mpr ⟨n, hn, ht⟩)⟩, ?_, htag⟩
      exact asks_lifeScript hd.own trivial tag tag.name _
    | @part d p owner parent tag children hpart =>
      obtain ⟨htag, hchildren⟩ := List.forall_mem_cons.mp htags
      have hp := (hway d owner rfl).part hpart
      refine ⟨⟨hp, fun n hn t ht => hchildren t (Node.mem_tagsList.mpr ⟨n, hn, ht⟩)⟩, ?_, htag⟩
      exact asks_lifeScript hp.own trivial tag owner _
  hook hd hf := ⟨⟨h.definitions _ hd, nofun⟩, asks_fileHook h hd hf _⟩
  compile := fun ⟨_, hchildren⟩ ⟨_, hnext⟩ => ⟨fun n hn _ => ⟨hchildren n hn, nofun⟩, hnext⟩
  chain := by
    rintro path site next ⟨hd, hchildren⟩ hnext
    refine ⟨fun n hn _ => ⟨hchildren n hn, ?_⟩, hnext⟩
    rintro d owner ⟨⟩
    exact hd
  embed := fun ⟨hfound, hnext⟩ => ⟨fun _ hother hreads => traced_of_parse hreads (hsource _ _ hother hfound), hnext⟩
  reply m children hs := asks_reply (hfinds m) children hs

/-- The open includes are recorded, and each error with a place points at its cause, in a template that is recorded. -/
structure Pointing (source : Bytes → Option Bytes) (env : Env) (m : Moment) : Prop where
  recorded : ∀ path ∈ m.embeds, Assoc.has path m.state.deps = true
  errors : ∀ d ∈ m.state.errors, ∀ place, d.at? = some place →
    (d.path = env.unit.path ∨ Assoc.has d.path m.state.deps = true) ∧
      ∃ text, source d.path = some text ∧ PointsAt text d.name place

theorem traced_of_concerns {m : Moment} {tag : Tag} (hconcerns : Concerns m tag) (h : m.Obeys (tracing source finds) env) :
    Traced source (env.pathIn m.embeds) tag := by
  cases hconcerns with
  | @node way n hdoing htag =>
    have hn := h.doing
    rw [hdoing] at hn
    obtain ⟨htags, -⟩ := hn
    cases n with
    | text _ _ | interpolation _ _ _ => cases htag
    | directive tag' children | part parent tag' children =>
      cases htag
      exact htags tag List.mem_cons_self
  | directive hwaiting =>
    have hopened := h.opened
    rw [hwaiting] at hopened
    exact (hopened.of_cons nofun).1

theorem pointing_next {m m' : Moment} (h : Pointing source env m) (hobeys : m.Obeys (tracing source finds) env)
    (hnext : m' ∈ m.next env) : Pointing source env m' := by
  obtain ⟨herrors, hdeps, hembeds⟩ := moves_next hnext
  refine ⟨fun path hpath => ?_, fun d hd place hplace => ?_⟩
  · rcases hembeds path hpath with hold | hnew
    · exact hdeps path (h.recorded path hold)
    · exact hnew
  · rcases herrors d hd with hold | hnone | ⟨tag, hconcerns, hname, hpath, hat⟩
    · obtain ⟨hrecorded, hcause⟩ := h.errors d hold place hplace
      exact ⟨hrecorded.imp_right (hdeps _), hcause⟩
    · cases hnone.symm.trans hplace
    · cases hat.symm.trans hplace
      have htraced : Traced source (env.pathIn m.embeds) tag := traced_of_concerns hconcerns hobeys
      rw [hname, hpath]
      refine ⟨?_, htraced⟩
      -- the template at hand is the innermost include, if there is one
      show env.pathIn m.embeds = _ ∨ _
      cases hlast : m.embeds.getLast? with
      | none => exact .inl (by rw [Env.pathIn, hlast, Option.getD_none])
      | some path =>
        have hmem : path ∈ m.embeds := List.mem_of_getLast? hlast
        refine .inr (hdeps _ (h.recorded _ ?_))
        rwa [Env.currentPath, Env.during, hlast, Option.getD_some]

theorem pointing_of_reaches (hD : (tracing source finds).Lawful env) {m m' : Moment}
    (hobeys : m.Obeys (tracing source finds) env) (h : Pointing source env m)
    (hreaches : Reaches (Moment.next env) m m') : Pointing source env m' := by
  induction hreaches with
  | refl => exact h
  | tail hbefore hnext ih => exact pointing_next ih (obeys_of_reaches hD hobeys hbefore) hnext

end

/-! ### Whole templates -/

theorem resolve_finds {options : Options} {r : Registry} {path : Bytes} {nodes : List Node} (m : Moment) (p text : Bytes)
    (h : ((options.env r path nodes).during m).resolve m.state p = .ok text) :
    FoundBy options.resolver p text := by
  obtain ⟨resolver, parse, concurrency⟩ := options
  cases resolver with
  | none => cases h
  | some resolver =>
    have hfinds := finds_among ((Options.env ⟨some resolver, parse, concurrency⟩ r path nodes).during m) resolver
      (Options.ahead ⟨some resolver, parse, concurrency⟩ r nodes)
    exact ⟨resolver, rfl, hfinds.found m.state p text h⟩

/-- Every error with a place is about the template that is compiled or about a recorded include, and in the source of
that template an at sign with the name of the directive stands at the place. -/
theorem errors_point_at_causes {options : Options} {path src : Bytes} {canceled : Bool} {t : Template}
    (hresult : (compileSource Standard.registry options path canceled src).result = .ok t) {d : Diagnostic}
    (hd : d ∈ t.errors) {place : Position} (hplace : d.at? = some place) :
    (d.path = path ∨ Assoc.has d.path t.deps = true) ∧
      ∃ text, sourceAt path src options.resolver d.path = some text ∧ PointsAt text d.name place := by
  unfold compileSource at hresult
  split at hresult
  · cases hresult
  · rename_i nodes hparse
    obtain ⟨last, hreaches, -, hcompilation⟩ := exists_last Standard.registry options path nodes canceled
    have hlast : last.result path = .ok t := (congrArg Compilation.result hcompilation).trans hresult
    rw [Moment.result] at hlast
    split at hlast
    · cases hlast
    · cases hlast
      have hlawful : (tracing (sourceAt path src options.resolver) (FoundBy options.resolver)).Lawful
          (options.env Standard.registry path nodes) := by
        refine lawful_tracing Standard.asks_registry resolve_finds ?_
        rintro p text hother ⟨r, hr, hfound⟩
        have hne : p ≠ path := hother
        rw [sourceAt, if_neg hne, hr, Option.bind_some, hfound]
        rfl
      have hbegin : (options.begin Standard.registry canceled nodes).Obeys
          (tracing (sourceAt path src options.resolver) (FoundBy options.resolver))
          (options.env Standard.registry path nodes) :=
        obeys_begin (traced_of_parse hparse (if_pos rfl))
      have hpointing : Pointing (sourceAt path src options.resolver) (options.env Standard.registry path nodes)
          (options.begin Standard.registry canceled nodes) := by
        unfold Options.begin
        split <;> exact ⟨List.forall_mem_nil _, List.forall_mem_nil _⟩
      exact (pointing_of_reaches hlawful hbegin hpointing hreaches).errors d hd place hplace

/-- Templates that include one another; the innermost one has a slot with no component around it. -/
def nestedPages : Assoc Bytes Bytes :=
  [("list", "<ul>\n@if(x)\n  @include('item')\n@end</ul>"), ("item", "<li>\n @slot('a') @end</li>")]

theorem errors_point_at_causes_nested : ∃ t d place,
    (compileSource Standard.registry { resolver := some (Resolver.ofTable nestedPages) } "page" false
      "@include('list')").result = .ok t ∧ d ∈ t.errors ∧ d.at? = some place ∧ d.path = "item" ∧ place = ⟨2, 2, 6⟩ ∧
      (d.path = "page" ∨ Assoc.has d.path t.deps = true) ∧
      ∃ text, sourceAt "page" "@include('list')" (some (Resolver.ofTable nestedPages)) d.path = some text ∧
        PointsAt text d.name place := by
  have hrun : (match (compileSource Standard.registry { resolver := some (Resolver.ofTable nestedPages) } "page" false
      "@include('list')").result with
      | .ok t => t.errors.map fun d => (d.path, d.at?)
      | .error _ => []) = [(("item" : Bytes), some ⟨2, 2, 6⟩)] := by
    decide +kernel
  cases hresult : (compileSource Standard.registry { resolver := some (Resolver.ofTable nestedPages) } "page" false
      "@include('list')").result with
  | error e => simp [hresult] at hrun
  | ok t =>
    rw [hresult] at hrun
    obtain ⟨d, hd, hfields⟩ : ∃ d ∈ t.errors, (d.path, d.at?) = (("item" : Bytes), some ⟨2, 2, 6⟩) := by
      have hmem := List.mem_singleton_self (("item" : Bytes), some (⟨2, 2, 6⟩ : Position))
      rw [← hrun] at hmem
      exact List.mem_map.mp hmem
    obtain ⟨hpath, hplace⟩ := Prod.mk.inj hfields
    obtain ⟨hrecorded, hcause⟩ := errors_point_at_causes hresult hd hplace
    exact ⟨t, d, _, rfl, hd, hplace, hpath, rfl, hrecorded, hcause⟩

end Stencil.Compile
