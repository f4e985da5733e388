import Stencil.Proofs.Compile.Discipline

/-! # Compiling comes to an end

Whatever is being done comes to an answer, with what waits and the open includes as they were (`comes_list`,
`comes_script`, `comes_embed`), and the answer is what the compilation gives. Nodes go down the tree, and a source
that is included takes up one of the places that the guard leaves, so the induction is on the places and, for each
number of them, on the tree. -/

namespace Stencil.Compile

open Stencil.Directive
open Stencil.Markup (Node Tag)
open StateTransition (Reaches)
open Relation (ReflTransGen)

section
variable (env : Env)

/-- What is being done comes to the outcome, and nothing else changes. -/
def Comes (m : Moment) (o : Outcome Unit) : Prop :=
  Reaches (Moment.next env) m { m with doing := .answer o.1, state := o.2 }

/-- So many includes may still follow. -/
def Moment.HasRoom (m : Moment) (depth : Nat) : Prop := m.embeds.length + depth = maxIncludes

def NodeComes (depth : Nat) (n : Node) : Prop :=
  ∀ m : Moment, m.HasRoom depth → ∀ way,
    Comes env (m.goOn (.node way n)) (.ok (), compileOne (embedAt depth) (env.during m) way n m.state)

/-- A request for an include is answered, and the script goes on where it was. -/
def EmbedComes (depth : Nat) : Prop :=
  ∀ m : Moment, m.HasRoom depth → ∀ site path src bindings next,
    Reaches (Moment.next env) (m.goOn (.script site (.embed path src bindings next)))
      { m.goOn (.script site (next (embedAt depth (env.during m) path src bindings m.state).1)) with
        state := (embedAt depth (env.during m) path src bindings m.state).2 }

end

variable {env : Env}

theorem reaches_head {m m' m'' : Moment} (h : m.next env = some m') (h' : Reaches (Moment.next env) m' m'') :
    Reaches (Moment.next env) m m'' :=
  .head h h'

/-- What waited takes the outcome. -/
theorem Comes.resumed {m : Moment} {w : Waiting} {doing : Doing} {o : Outcome Unit} (h : Comes env (m.await w doing) o) :
    Reaches (Moment.next env) (m.await w doing) ({ m with state := o.2 }.resume env o.1 w) := by
  refine ReflTransGen.tail h ?_
  cases w <;> rfl

theorem Leads.children {r : Registry} {way : Way} {n : Node} {tag : Tag} {site : Site} (h : Leads r way n tag site) :
    site.children = n.children := by
  cases h <;> rfl

/-! ### Lists and scripts -/

section Depth
variable {depth : Nat}

theorem comes_list (way : Way) {ns : List Node} (h : ∀ n ∈ ns, NodeComes env depth n) (m : Moment) (hm : m.HasRoom depth) :
    Comes env (m.goOn (.list way ns)) (compileList (embedAt depth) (env.during m) way ns m.state) := by
  induction ns generalizing m with
  | nil =>
    rw [compileList_nil]
    exact .single rfl
  | cons n ns ih =>
    obtain ⟨hn, hns⟩ := List.forall_mem_cons.mp h
    rw [compileList_cons]
    have hnext : (m.goOn (.list way (n :: ns))).next env = some (m.list way (n :: ns)) := rfl
    rw [Moment.list] at hnext
    split
    · rename_i htakes
      rw [if_pos htakes] at hnext
      split
      · rename_i hcanceled
        rw [if_pos hcanceled] at hnext
        exact .single hnext
      · rename_i hrunning
        rw [if_neg hrunning] at hnext
        have hnode := (hn (m.await (.list way ns) (.node way n)) hm way).resumed (m := m)
        have hrest := ih hns { m with state := compileOne (embedAt depth) (env.during m) way n m.state } hm
        exact (reaches_head hnext hnode).trans hrest
    · rename_i hskips
      rw [if_neg hskips] at hnext
      exact reaches_head hnext (ih hns m hm)

theorem comes_script (hembed : EmbedComes env depth) (site : Site) (hchildren : ∀ n ∈ site.children, NodeComes env depth n)
    (s : Script Unit) : ∀ m : Moment, m.HasRoom depth → Comes env (m.goOn (.script site s))
      (runScript (env.during m)
        (requests (embedAt depth) (env.during m) site.definition site.owner site.children) s m.state) := by
  induction s with
  | done a | fail e | abort text => exact fun m hm => .single rfl
  | compile which next ih =>
    intro m hm
    have hlist := (comes_list (.children which) hchildren (m.await (.script site next) (.list (.children which) site.children))
      hm).resumed (m := m)
    exact (reaches_head rfl hlist).trans (ih _ { m with state := _ } hm)
  | chain next ih =>
    intro m hm
    have hlist := (comes_list (.chain site.definition site.owner) hchildren
      (m.await (.script site next) (.list (.chain site.definition site.owner) site.children)) hm).resumed (m := m)
    exact (reaches_head rfl hlist).trans (ih _ { m with state := _ } hm)
  | embed path src bindings next ih =>
    exact fun m hm => (hembed m hm site path src bindings next).trans (ih _ { m with state := _ } hm)
  | emit _ _ next ih | add _ next ih | useLoader _ next ih | setState _ _ next ih | setData _ _ next ih | log _ next ih
  | cancel next ih => exact fun m hm => .head rfl (ih { m with state := _ } hm)
  | newLabel next ih | loader next ih | literalText _ next ih | resolve _ next ih | getState _ next ih
  | getData _ next ih => exact fun m hm => .head rfl (ih _ { m with state := _ } hm)

/-! ### Nodes and includes -/

theorem comes_node (hembed : EmbedComes env depth) (n : Node) : NodeComes env depth n := by
  induction n using Node.byChildren with
  | h n ih =>
    intro m hm way
    rw [compileOne_eq]
    have hnext : (m.goOn (.node way n)).next env = some (m.node env way n) := rfl
    rw [Moment.node] at hnext
    split
    · rename_i st hvisit
      rw [hvisit] at hnext
      exact .single hnext
    · rename_i tag site aside hvisit
      rw [hvisit] at hnext
      have hsite : ∀ c ∈ site.children, NodeComes env depth c := (leads_of_visit _ hvisit).children ▸ ih
      have hlife := (comes_script hembed site hsite (lifeScript site.definition tag site.owner env.unit)
        { m.await (.directive tag m.state.out.mark aside) (.node way n) with state := m.state.opening aside } hm).resumed
          (m := { m with state := m.state.opening aside })
      exact .head hnext hlife

/-- After an included source the script that asked for it goes on, and the path is off the stack. -/
theorem leaves_inclusion (m : Moment) (site : Site) (next : Except Failure Unit → Script Unit) (path : Bytes)
    (o : Outcome Unit) :
    Reaches (Moment.next env)
      (Moment.resume env { m with waiting := .script site next :: m.waiting, state := o.2, embeds := m.embeds ++ [path] }
        o.1 .inclusion)
      { m.goOn (.script site (next (andThen o fun _ st => (.ok (), st.emit m.part [.exit .merge []])).1)) with
        state := (andThen o fun _ st => (.ok (), st.emit m.part [.exit .merge []])).2 } := by
  rw [Moment.resume, List.dropLast_concat]
  rcases o with ⟨e | u, st⟩ <;> exact .single rfl

theorem comes_embed (depth : Nat) : EmbedComes env depth := by
  induction depth with
  | zero =>
    intro m hm site path src bindings next
    have henter : (env.during m).enter path src = .error (.includeTooDeep maxIncludes path) := if_pos (Nat.le_of_eq hm.symm)
    have hnext : (m.goOn (.script site (.embed path src bindings next))).next env =
      some (m.script env site (.embed path src bindings next)) := rfl
    rw [Moment.script, henter] at hnext
    exact .single hnext
  | succ depth ih =>
    intro m hm site path src bindings next
    have hnext : (m.goOn (.script site (.embed path src bindings next))).next env =
      some (m.script env site (.embed path src bindings next)) := rfl
    rw [Moment.script] at hnext
    rw [embedAt_eq (env.during m) hm]
    cases henter : (env.during m).enter path src with
    | error e =>
      rw [henter] at hnext
      exact .single hnext
    | ok nodes =>
      rw [henter] at hnext
      let inner : Moment :=
        { m with
          waiting := .script site next :: m.waiting
          state := m.state.including m.part path src bindings
          embeds := m.embeds ++ [path] }
      have hinner : inner.HasRoom depth := by
        have hm : m.embeds.length + (depth + 1) = maxIncludes := hm
        simp only [Moment.HasRoom, inner, List.length_append, List.length_singleton]
        omega
      have hnodes : ∀ n ∈ nodes, NodeComes env depth n := fun n _ => comes_node ih n
      have hlist := (comes_list (.children .all) hnodes (inner.await .inclusion (.list (.children .all) nodes))
        hinner).resumed (m := inner)
      exact (reaches_head hnext hlist).trans (leaves_inclusion m site next path _)

theorem comes_nodes (way : Way) (ns : List Node) (m : Moment) (hm : m.HasRoom depth) :
    Comes env (m.goOn (.list way ns)) (compileList (embedAt depth) (env.during m) way ns m.state) :=
  comes_list way (fun n _ => comes_node (comes_embed depth) n) m hm

end Depth

/-! ### Whole templates -/

/-- Nothing is asked. -/
def undemanding : Discipline where
  node _ _ _ := True
  site _ _ := True
  script _ := True
  tag _ _ := True

theorem lawful_undemanding : undemanding.Lawful env where
  lives _ _ := ⟨trivial, trivial, trivial⟩
  hook _ _ := ⟨trivial, trivial⟩
  compile _ _ := ⟨fun _ _ _ => trivial, fun _ => trivial⟩
  chain _ _ := ⟨fun _ _ _ => trivial, fun _ => trivial⟩
  embed _ := ⟨fun _ _ _ _ _ => trivial, fun _ => trivial⟩
  reply _ _ _ := trivial

theorem comes_hooks (ds : List Definition) : ∀ m : Moment, m.embeds = [] → Comes env (m.goOn (.hooks ds))
    (.ok (), ds.foldl (fun st d => runFileHook (env.during m) d (fileHook m.part d) st) m.state) := by
  induction ds with
  | nil => exact fun m hm => .single rfl
  | cons d ds ih =>
    intro m hm
    have hnext : (m.goOn (.hooks (d :: ds))).next env = some (m.hooks env (d :: ds)) := rfl
    rw [Moment.hooks] at hnext
    rw [List.foldl_cons]
    cases hhook : fileHook m.part d with
    | none =>
      rw [hhook] at hnext
      exact reaches_head hnext (ih m hm)
    | some f =>
      rw [hhook] at hnext
      have hroom : m.HasRoom maxIncludes := by simp [Moment.HasRoom, hm]
      have hscript : Comes env (m.await (.hook d m.state.out.mark ds) (.script ⟨d, [], []⟩ (f env.unit)))
          (runScript (env.during m) (requests embedder (env.during m) d [] []) (f env.unit) m.state) :=
        comes_script (comes_embed maxIncludes) ⟨d, [], []⟩ (List.forall_mem_nil _) (f env.unit) (m.await (.hook d m.state.out.mark ds)
          (.script ⟨d, [], []⟩ (f env.unit))) hroom
      rw [runFileHook_some]
      exact (reaches_head hnext hscript.resumed).trans (ih { m with state := _ } hm)

/-- The state after the hooks at the start or the end of a template. -/
def Env.hooked (env : Env) (part : Section) (st : State) : State :=
  env.registry.definitions.foldl (fun st d => runFileHook { env with part } d (fileHook part d) st) st

section Stages
variable (hembeds : env.embeds = [])
include hembeds

theorem comes_hooked (waiting : List Waiting) (st : State) (part : Section) :
    Comes env ⟨.hooks env.registry.definitions, waiting, st, part, []⟩ (.ok (), env.hooked part st) := by
  have h : Comes env _ _ := comes_hooks env.registry.definitions ⟨.hooks [], waiting, st, part, []⟩ rfl
  rw [Env.during, ← hembeds] at h
  rw [← hembeds]
  exact h

theorem comes_body (hpart : env.part = .body) (waiting : List Waiting) (nodes : List Node) (st : State) :
    Comes env ⟨.list (.children .all) nodes, waiting, st, .body, []⟩ (compileNodes embedder env .all nodes st) := by
  have hroom : Moment.HasRoom ⟨.hooks [], waiting, st, .body, []⟩ maxIncludes := rfl
  have h : Comes env _ _ := comes_nodes (.children .all) nodes ⟨.hooks [], waiting, st, .body, []⟩ hroom
  rw [Env.during, ← hembeds, ← hpart] at h
  rw [← hembeds, ← hpart]
  exact h

end Stages

section Generate
variable (r : Registry) (options : Options) (path : Bytes) {canceled : Bool} (nodes : List Node)

theorem generate_stopped (h : canceled ∧ options.ahead r nodes ≠ []) :
    generate r options path canceled nodes = { result := .error .canceled, canceled, seals := true } := by
  unfold Options.ahead at h
  rw [generate]
  simp only [if_pos h]

theorem generate_stages (h : ¬(canceled ∧ options.ahead r nodes ≠ [])) :
    generate r options path canceled nodes = (options.env r path nodes).outcome path
      (compileNodes embedder (options.env r path nodes) .all nodes
        ((options.env r path nodes).hooked .pre { canceled })) := by
  unfold Options.ahead at h
  rw [generate]
  simp only [if_neg h]
  rfl

theorem exists_last (canceled : Bool) : ∃ last,
    Reaches (Moment.next (options.env r path nodes)) (options.begin r canceled nodes) last ∧
      last.next (options.env r path nodes) = none ∧ last.compilation path = generate r options path canceled nodes := by
  unfold Options.begin
  split
  · rename_i h
    exact ⟨_, .refl, rfl, (generate_stopped r options path nodes h).symm⟩
  · rename_i h
    rw [generate_stages r options path nodes h]
    obtain ⟨env, henv⟩ : ∃ env, env = options.env r path nodes := ⟨_, rfl⟩
    have hpart : env.part = .body := henv ▸ rfl
    have hembeds : env.embeds = [] := henv ▸ rfl
    have hregistry : r = env.registry := henv ▸ rfl
    rw [← henv, hregistry]
    have hstart : Reaches (Moment.next env) ⟨.hooks env.registry.definitions, [.body nodes], { canceled }, .pre, []⟩
        ⟨.list (.children .all) nodes, [.ending], env.hooked .pre { canceled }, .body, []⟩ :=
      (comes_hooked hembeds [.body nodes] { canceled } .pre).resumed (m := ⟨.hooks [], [], { canceled }, .pre, []⟩)
    have hbody := (comes_body hembeds hpart [.ending] nodes (env.hooked .pre { canceled })).resumed
      (m := ⟨.hooks [], [], env.hooked .pre { canceled }, .body, []⟩)
    rcases hnodes : compileNodes embedder env .all nodes (env.hooked .pre { canceled }) with ⟨e | u, st⟩ <;>
      rw [hnodes] at hbody
    · exact ⟨⟨.answer (.error e), [], st, .body, []⟩, hstart.trans hbody, rfl, rfl⟩
    · exact ⟨⟨.answer (.ok ()), [], env.hooked .post st, .post, []⟩,
        (hstart.trans hbody).trans (comes_hooked hembeds [] st .post), rfl, rfl⟩

/-- Every compilation ends, whatever sources its includes are given, and its last moment holds what comes of it. At every
moment the stack of open includes is short, without duplicates and without the template itself. Each request for an
include is answered, whether it succeeds or fails, with the stack as it was. -/
theorem generate_ends_with_guarded_includes (canceled : Bool) :
    (∃ last ∈ StateTransition.eval (Moment.next (options.env r path nodes)) (options.begin r canceled nodes),
      last.compilation path = generate r options path canceled nodes) ∧
    ∀ m, Reaches (Moment.next (options.env r path nodes)) (options.begin r canceled nodes) m →
      (m.embeds.length ≤ maxIncludes ∧ m.embeds.Nodup ∧ path ∉ m.embeds) ∧
      ∀ site target src bindings next, m.doing = .script site (.embed target src bindings next) →
        ∃ answer st,
          (answer, st) = embedAt (maxIncludes - m.embeds.length) ((options.env r path nodes).during m) target src
            bindings m.state ∧
          Reaches (Moment.next (options.env r path nodes)) m { m with doing := .script site (next answer), state := st } := by
  refine ⟨?_, fun m hreaches => ?_⟩
  · obtain ⟨last, hreaches, hlast, hcompilation⟩ := exists_last r options path nodes canceled
    exact ⟨last, StateTransition.mem_eval.mpr ⟨hreaches, hlast⟩, hcompilation⟩
  · have hbegin : (options.begin r canceled nodes).Obeys undemanding (options.env r path nodes) :=
      obeys_begin fun _ _ => trivial
    have hguarded := (obeys_of_reaches lawful_undemanding hbegin hreaches).opened.guarded
    refine ⟨hguarded, fun site target src bindings next hdoing => ?_⟩
    have hroom : m.HasRoom (maxIncludes - m.embeds.length) := Nat.add_sub_of_le hguarded.1
    have hcomes : EmbedComes (options.env r path nodes) (maxIncludes - m.embeds.length) := comes_embed _
    have hembed := hcomes m hroom site target src bindings next
    rw [Moment.goOn, ← hdoing] at hembed
    exact ⟨_, _, rfl, hembed⟩

end Generate

end Stencil.Compile
