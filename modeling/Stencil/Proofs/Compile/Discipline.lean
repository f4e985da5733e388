import Stencil.Proofs.Compile.Moments

/-! # What is kept from moment to moment

A discipline asks something of nodes, sites, scripts and heads, depending on the template that they are compiled for.
If what is asked passes on from a node to its directive, from there to its children and to the sources that it includes
(`Discipline.Lawful`), then it holds at every moment, of what is being done and of all that waits (`obeys_of_reaches`).
With it the includes that are open are as many as were entered and not left, and each passed the guard. -/

namespace Stencil.Compile

open Stencil.Directive
open Stencil.Markup (Node Tag)
open StateTransition (Reaches)

/-! ### What a node leads to -/

/-- The directive that lives when a node is compiled. -/
inductive Leads (r : Registry) : Way → Node → Tag → Site → Prop
  | directive {which : Selection} {tag : Tag} {children : List Node} {d : Definition} (hproblem : tag.problem = .none)
      (hlookup : r.lookup tag.name = some d) :
      Leads r (.children which) (.directive tag children) tag ⟨d, tag.name, children⟩
  | part {d p : Definition} {owner parent : Bytes} {tag : Tag} {children : List Node} (hpart : d.part? tag.name = some p) :
      Leads r (.chain d owner) (.part parent tag children) tag ⟨p, owner, children⟩

theorem leads_of_visit (env : Env) {way : Way} {n : Node} {st : State} {tag : Tag} {site : Site}
    {aside : Option Bindings} (h : env.visit way n st = .directive tag site aside) :
    Leads env.registry way n tag site := by
  cases way with
  | children which =>
    cases n with
    | text _ _ | interpolation _ _ _ | part _ _ _ => cases h
    | directive tag' children =>
      rw [Env.visit] at h
      split at h <;> try cases h
      rename_i hproblem
      split at h
      · cases h
      · rename_i d hlookup
        cases h
        exact .directive hproblem hlookup
  | chain d owner =>
    cases n with
    | text _ _ | interpolation _ _ _ | directive _ _ => cases h
    | part parent tag' children =>
      rw [Env.visit] at h
      split at h
      · cases h
      · rename_i p hpart
        cases h
        exact .part hpart

theorem not_mem_of_cycleFrom {path : Bytes} : ∀ {embeds : List Bytes}, cycleFrom path embeds = none → path ∉ embeds
  | [], _ => List.not_mem_nil
  | p :: ps, h => by
    rw [cycleFrom] at h
    split at h
    · cases h
    · rename_i hne
      exact List.not_mem_cons_of_ne_of_not_mem (Ne.symm hne) (not_mem_of_cycleFrom h)

/-- What passes the guard. -/
structure Env.Enters (env : Env) (path src : Bytes) (nodes : List Node) : Prop where
  room : env.embeds.length < maxIncludes
  new : path ∉ env.embeds
  other : path ≠ env.unit.path
  reads : Markup.parse env.registry env.options path src = .ok nodes

theorem enters_of_enter {env : Env} {path src : Bytes} {nodes : List Node} (h : env.enter path src = .ok nodes) :
    env.Enters path src nodes := by
  unfold Env.enter at h
  split at h
  · cases h
  rename_i hroom
  split at h
  · cases h
  rename_i hcycle
  split at h
  · cases h
  rename_i hother
  split at h
  · cases h
  · rename_i ns hreads
    cases h
    exact ⟨Nat.lt_of_not_le hroom, not_mem_of_cycleFrom hcycle, hother, hreads⟩

/-! ### Disciplines -/

/-- What is asked of what is compiled, by the path of the template that it is compiled for. -/
structure Discipline where
  node : Bytes → Way → Node → Prop
  site : Bytes → Site → Prop
  script : Script Unit → Prop
  tag : Bytes → Tag → Prop

/-- What is asked passes on. -/
structure Discipline.Lawful (D : Discipline) (env : Env) : Prop where
  lives : ∀ {path way n tag site}, D.node path way n → Leads env.registry way n tag site →
    D.site path site ∧ D.script (lifeScript site.definition tag site.owner env.unit) ∧ D.tag path tag
  hook : ∀ {part d f}, d ∈ env.registry.definitions → fileHook part d = some f →
    D.site env.unit.path ⟨d, [], []⟩ ∧ D.script (f env.unit)
  compile : ∀ {path site which next}, D.site path site → D.script (.compile which next) →
    (∀ n ∈ site.children, selects which n → D.node path (.children which) n) ∧ ∀ r, D.script (next r)
  chain : ∀ {path site next}, D.site path site → D.script (.chain next) →
    (∀ n ∈ site.children, n.isPart → D.node path (.chain site.definition site.owner) n) ∧ ∀ r, D.script (next r)
  embed : ∀ {path src bindings next}, D.script (.embed path src bindings next) →
    (∀ nodes, path ≠ env.unit.path → Markup.parse env.registry env.options path src = .ok nodes →
      ∀ n ∈ nodes, D.node path (.children .all) n) ∧ ∀ r, D.script (next r)
  reply : ∀ {s} (m : Moment) children, D.script s → D.script ((env.during m).reply children s m.state).1

/-- The template that is compiled while these includes are open. -/
def Env.pathIn (env : Env) (embeds : List Bytes) : Bytes := embeds.getLast?.getD env.unit.path

section
variable (D : Discipline) (env : Env)

def Doing.Obeys (path : Bytes) : Doing → Prop
  | .hooks ds => path = env.unit.path ∧ ∀ d ∈ ds, d ∈ env.registry.definitions
  | .list way ns => ∀ n ∈ ns, way.takes n → D.node path way n
  | .node way n => D.node path way n
  | .script site s => D.site path site ∧ D.script s
  | .answer _ => True

/-- This is about what waits in a template; an included source is left elsewhere. -/
def Waiting.Obeys (path : Bytes) : Waiting → Prop
  | .list way ns => ∀ n ∈ ns, way.takes n → D.node path way n
  | .script site next => D.site path site ∧ ∀ r, D.script (next r)
  | .directive tag _ _ => D.tag path tag
  | .inclusion => False
  | .hook _ _ ds => path = env.unit.path ∧ ∀ d ∈ ds, d ∈ env.registry.definitions
  | .body nodes => path = env.unit.path ∧ ∀ n ∈ nodes, D.node path (.children .all) n
  | .ending => path = env.unit.path

/-- The includes that are open are those that are still to be left, and each passed the guard. -/
inductive Opened : List Bytes → List Waiting → Prop
  | nil : Opened [] []
  | waits {embeds : List Bytes} {w : Waiting} {ws : List Waiting} (hw : w.Obeys D env (env.pathIn embeds))
      (h : Opened embeds ws) : Opened embeds (w :: ws)
  | inclusion {embeds : List Bytes} {path : Bytes} {ws : List Waiting} (hroom : embeds.length < maxIncludes)
      (hnew : path ∉ embeds) (hother : path ≠ env.unit.path) (h : Opened embeds ws) :
      Opened (embeds ++ [path]) (.inclusion :: ws)

structure Moment.Obeys (m : Moment) : Prop where
  doing : m.doing.Obeys D env (env.pathIn m.embeds)
  opened : Opened D env m.embeds m.waiting

end

variable {D : Discipline} {env : Env}

theorem pathIn_append (embeds : List Bytes) (path : Bytes) : env.pathIn (embeds ++ [path]) = path := by
  simp [Env.pathIn]

/-- The guard keeps the stack short, without duplicates and without the template itself. -/
theorem Opened.guarded {embeds : List Bytes} {ws : List Waiting} (h : Opened D env embeds ws) :
    embeds.length ≤ maxIncludes ∧ embeds.Nodup ∧ env.unit.path ∉ embeds := by
  induction h with
  | nil => exact ⟨Nat.zero_le _, List.nodup_nil, List.not_mem_nil⟩
  | waits _ _ ih => exact ih
  | @inclusion embeds path ws hroom hnew hother _ ih =>
    obtain ⟨-, hnodup, hself⟩ := ih
    refine ⟨?_, ?_, ?_⟩
    · rw [List.length_append, List.length_singleton]
      exact hroom
    · rw [← List.concat_eq_append, List.nodup_concat]
      exact ⟨hnew, hnodup⟩
    · rw [List.mem_append, List.mem_singleton]
      exact not_or.mpr ⟨hself, Ne.symm hother⟩

theorem Opened.dropLast {embeds : List Bytes} {ws : List Waiting} (h : Opened D env embeds (.inclusion :: ws)) :
    Opened D env embeds.dropLast ws := by
  cases h with
  | waits hw _ => exact hw.elim
  | inclusion _ _ _ hrest => rwa [List.dropLast_concat]

theorem Opened.of_cons {embeds : List Bytes} {w : Waiting} {ws : List Waiting} (h : Opened D env embeds (w :: ws))
    (hw : w ≠ .inclusion) : w.Obeys D env (env.pathIn embeds) ∧ Opened D env embeds ws := by
  cases h with
  | waits hw hrest => exact ⟨hw, hrest⟩
  | inclusion => exact absurd rfl hw

/-! ### One moment -/

section Steps
variable {m : Moment} (hD : D.Lawful env) (hopened : Opened D env m.embeds m.waiting)
include hD hopened

theorem obeys_hooks {ds : List Definition} (h : (Doing.hooks ds).Obeys D env (env.pathIn m.embeds)) :
    (m.hooks env ds).Obeys D env := by
  obtain ⟨hpath, hds⟩ := h
  cases ds with
  | nil => exact ⟨trivial, hopened⟩
  | cons d ds =>
    obtain ⟨hd, hds⟩ := List.forall_mem_cons.mp hds
    rw [Moment.hooks]
    split
    · exact ⟨⟨hpath, hds⟩, hopened⟩
    · rename_i f hf
      obtain ⟨hsite, hscript⟩ := hD.hook hd hf
      exact ⟨⟨hpath ▸ hsite, hscript⟩, .waits ⟨hpath, hds⟩ hopened⟩

omit hD in
theorem obeys_list {way : Way} {ns : List Node} (h : (Doing.list way ns).Obeys D env (env.pathIn m.embeds)) :
    (m.list way ns).Obeys D env := by
  cases ns with
  | nil => exact ⟨trivial, hopened⟩
  | cons n ns =>
    obtain ⟨hn, hns⟩ := List.forall_mem_cons.mp h
    rw [Moment.list]
    split
    · rename_i htakes
      split
      · exact ⟨trivial, hopened⟩
      · exact ⟨hn htakes, .waits hns hopened⟩
    · exact ⟨hns, hopened⟩

theorem obeys_node {way : Way} {n : Node} (h : D.node (env.pathIn m.embeds) way n) :
    (m.node env way n).Obeys D env := by
  rw [Moment.node]
  split
  · exact ⟨trivial, hopened⟩
  · rename_i tag site aside hvisit
    obtain ⟨hsite, hscript, htag⟩ := hD.lives h (leads_of_visit (env.during m) hvisit)
    exact ⟨⟨hsite, hscript⟩, .waits htag hopened⟩

theorem obeys_script {site : Site} {s : Script Unit} (hsite : D.site (env.pathIn m.embeds) site) (hs : D.script s) :
    (m.script env site s).Obeys D env := by
  cases s with
  | done a | fail e | abort text => exact ⟨trivial, hopened⟩
  | compile which next =>
    obtain ⟨hchildren, hnext⟩ := hD.compile hsite hs
    exact ⟨hchildren, .waits ⟨hsite, hnext⟩ hopened⟩
  | chain next =>
    obtain ⟨hchildren, hnext⟩ := hD.chain hsite hs
    exact ⟨hchildren, .waits ⟨hsite, hnext⟩ hopened⟩
  | embed path src bindings next =>
    obtain ⟨hnodes, hnext⟩ := hD.embed hs
    rw [Moment.script]
    split
    · exact ⟨⟨hsite, hnext _⟩, hopened⟩
    · rename_i nodes henter
      -- what passes the guard is what the stack asks of a new entry
      obtain ⟨hroom, hnew, hother, hreads⟩ := enters_of_enter henter
      refine ⟨fun n hn _ => ?_, .inclusion hroom hnew hother (.waits ⟨hsite, hnext⟩ hopened)⟩
      rw [pathIn_append]
      exact hnodes nodes hother hreads n hn
  | emit _ _ _ | newLabel _ | add _ _ | loader _ | useLoader _ _ | literalText _ _ | resolve _ _ | getState _ _
  | setState _ _ _ | getData _ _ | setData _ _ _ | log _ _ | cancel _ =>
    exact ⟨⟨hsite, hD.reply m site.children hs⟩, hopened⟩

end Steps

theorem obeys_resume {m : Moment} {w : Waiting} (r : Except Failure Unit) (h : Opened D env m.embeds (w :: m.waiting)) :
    (m.resume env r w).Obeys D env := by
  cases w with
  | inclusion => exact ⟨trivial, h.dropLast⟩
  | list way ns =>
    obtain ⟨hns, hrest⟩ := h.of_cons nofun
    exact ⟨hns, hrest⟩
  | script site next =>
    obtain ⟨⟨hsite, hnext⟩, hrest⟩ := h.of_cons nofun
    exact ⟨⟨hsite, hnext r⟩, hrest⟩
  | directive tag mark aside =>
    obtain ⟨-, hrest⟩ := h.of_cons nofun
    exact ⟨trivial, hrest⟩
  | hook d mark ds =>
    obtain ⟨hds, hrest⟩ := h.of_cons nofun
    exact ⟨hds, hrest⟩
  | body nodes =>
    obtain ⟨⟨hpath, hnodes⟩, hrest⟩ := h.of_cons nofun
    exact ⟨fun n hn _ => hnodes n hn, .waits hpath hrest⟩
  | ending =>
    obtain ⟨hpath, hrest⟩ := h.of_cons nofun
    cases r with
    | ok u => exact ⟨⟨hpath, fun d hd => hd⟩, hrest⟩
    | error e => exact ⟨trivial, hrest⟩

theorem obeys_next (hD : D.Lawful env) {m m' : Moment} (h : m.Obeys D env) (hnext : m' ∈ m.next env) :
    m'.Obeys D env := by
  obtain ⟨hdoing, hopened⟩ := h
  rw [Moment.next] at hnext
  split at hnext
  · rename_i ds heq
    rw [heq] at hdoing
    cases hnext
    exact obeys_hooks hD hopened hdoing
  · rename_i way ns heq
    rw [heq] at hdoing
    cases hnext
    exact obeys_list hopened hdoing
  · rename_i way n heq
    rw [heq] at hdoing
    cases hnext
    exact obeys_node hD hopened hdoing
  · rename_i site s heq
    rw [heq] at hdoing
    cases hnext
    exact obeys_script hD hopened hdoing.1 hdoing.2
  · rename_i r heq
    split at hnext
    · cases hnext
    · rename_i w ws hws
      rw [hws] at hopened
      cases hnext
      exact obeys_resume r hopened

/-! ### All moments -/

theorem obeys_begin {options : Options} {r : Registry} {path : Bytes} {canceled : Bool} {nodes : List Node}
    (hnodes : ∀ n ∈ nodes, D.node path (.children .all) n) :
    (options.begin r canceled nodes).Obeys D (options.env r path nodes) := by
  unfold Options.begin
  split
  · exact ⟨trivial, .nil⟩
  · exact ⟨⟨rfl, fun d hd => hd⟩, .waits ⟨rfl, hnodes⟩ .nil⟩

theorem obeys_of_reaches (hD : D.Lawful env) {m m' : Moment} (h : m.Obeys D env) (hreaches : Reaches (Moment.next env) m m') :
    m'.Obeys D env := by
  induction hreaches with
  | refl => exact h
  | tail _ hnext ih => exact obeys_next hD ih hnext

end Stencil.Compile
