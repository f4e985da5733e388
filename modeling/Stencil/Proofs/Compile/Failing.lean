import Stencil.Proofs.Compile.Orderly
import Stencil.Proofs.Markup.Positions

/-! # Where errors are recorded

While nodes are compiled with the standard directives nothing is cancelled, no request of a hook fails but an
include that changed nothing, and every error of the template itself has the place of one of the nodes
(`tame_compileNodes`). A directive that fails has changed no label, and nothing that hooks remember. -/

namespace Stencil.Compile

open Stencil.Directive
open Stencil.Directive.Script (Rights)
open Stencil.Directive.Standard (registry mem_all_of_lookup)
open Stencil.Markup (Node Tag Position)

/-- How many errors of a template are recorded at a place. -/
def State.failuresAt (st : State) (path : Bytes) (place : Position) : Nat :=
  st.errors.countP fun d => d.path = path ∧ d.at? = some place

theorem failuresAt_report (st : State) (d : Diagnostic) (path : Bytes) (place : Position) :
    (st.report d).failuresAt path place =
      st.failuresAt path place + if d.path = path ∧ d.at? = some place then 1 else 0 := by
  simp [State.failuresAt, State.report, List.countP_append, List.countP_singleton]

/-! ### Scripts -/

/-- What hooks of a template can rely on when they make requests. `calm` are the places where compiling the children
records no error of the template, and `calmParts` those for the parts of the chain. -/
structure Tame (path : Bytes) (calm calmParts : Position → Prop) (ask : Requests) : Prop where
  compile : ∀ st, st.canceled = false → ∃ after, ask.compile .regular st = (.ok (), after) ∧ after.canceled = false ∧
    ∀ place, calm place → after.failuresAt path place = st.failuresAt path place
  chain : ∀ st, st.canceled = false → ∃ after, ask.chain st = (.ok (), after) ∧ after.canceled = false ∧
    ∀ place, calmParts place → after.failuresAt path place = st.failuresAt path place
  embed : ∀ target src bindings st, st.canceled = false → ∃ after r, ask.embed target src bindings st = (r, after) ∧
    after.canceled = false ∧ (∀ place, after.failuresAt path place = st.failuresAt path place) ∧
    ∀ e, r = .error e → after = st

/-- What a script does with its rights: errors are recorded where it may compile, and it fails early. -/
structure Tamed {α : Type} (path : Bytes) (calm calmParts : Position → Prop) (r : Rights) (st : State)
    (o : Outcome α) : Prop where
  running : o.2.canceled = false
  failures : ∀ place, (r.compiles = true → calm place) → (r.chains = true → calmParts place) →
    o.2.failuresAt path place = st.failuresAt path place
  early : ∀ e, o.1 = .error e →
    r.fails = true ∧ o.2.labels = st.labels ∧ o.2.memory = st.memory ∧ o.2.data = st.data

section Scripts
variable {α : Type} {path : Bytes} {calm calmParts : Position → Prop} {env : Env} {ask : Requests}

/-- A first step that changes nothing that lasts. -/
theorem Tamed.after_same {r r' : Rights} {st st₁ : State} {o : Outcome α} (h : Tamed path calm calmParts r' st₁ o)
    (herrors : st₁.errors = st.errors) (hlabels : st₁.labels = st.labels) (hmemory : st₁.memory = st.memory)
    (hdata : st₁.data = st.data) (hfails : r'.fails = r.fails) (hcompiles : r'.compiles = true → r.compiles = true)
    (hchains : r'.chains = r.chains) : Tamed path calm calmParts r st o where
  running := h.running
  failures place hcalm hcalmParts := by
    rw [h.failures place (fun hc => hcalm (hcompiles hc)) (fun hc => hcalmParts (hchains ▸ hc))]
    simp only [State.failuresAt, herrors]
  early e he := by
    obtain ⟨hright, hl, hm, hd⟩ := h.early e he
    exact ⟨hfails ▸ hright, hl.trans hlabels, hm.trans hmemory, hd.trans hdata⟩

/-- A first step after which nothing fails. -/
theorem Tamed.after_committed {r r' : Rights} {st st₁ : State} {o : Outcome α} (h : Tamed path calm calmParts r' st₁ o)
    (hfails : r'.fails = false) (hcompiles : r'.compiles = true → r.compiles = true)
    (hchains : r'.chains = true → r.chains = true)
    (hfirst : ∀ place, (r.compiles = true → calm place) → (r.chains = true → calmParts place) →
      st₁.failuresAt path place = st.failuresAt path place) : Tamed path calm calmParts r st o where
  running := h.running
  failures place hcalm hcalmParts := by
    rw [h.failures place (fun hc => hcalm (hcompiles hc)) (fun hc => hcalmParts (hchains hc))]
    exact hfirst place hcalm hcalmParts
  early e he := by
    have hright := (h.early e he).1
    rw [hfails] at hright
    cases hright

variable (env) in
theorem tamed_runScript (hask : Tame path calm calmParts ask) {P : Rights → α → Prop} (s : Script α) (r : Rights)
    (st : State) (hs : s.Orderly P r) (hst : st.canceled = false) :
    Tamed path calm calmParts r st (runScript env ask s st) := by
  induction s generalizing r st with
  | done a => exact ⟨hst, fun _ _ _ => rfl, fun e he => by cases he⟩
  | fail e | abort text => exact ⟨hst, fun _ _ _ => rfl, fun _ _ => ⟨hs, rfl, rfl, rfl⟩⟩
  | emit place instrs next ih => exact (ih r (st.emit _ instrs) hs hst).after_same rfl rfl rfl rfl rfl id rfl
  | add text next ih => exact (ih r (st.add _ text) hs hst).after_same rfl rfl rfl rfl rfl id rfl
  | useLoader name next ih =>
    exact (ih r { st with out := { st.out with loader := name } } hs hst).after_same rfl rfl rfl rfl rfl id rfl
  | log line next ih => exact (ih r { st with log := st.log ++ [line] } hs hst).after_same rfl rfl rfl rfl rfl id rfl
  | loader _ ih | getState _ _ ih | getData _ _ ih | resolve _ _ ih => exact ih _ r st (hs _) hst
  | newLabel next ih =>
    exact (ih _ r.committed { st with labels := st.labels + 1 } (hs _) hst).after_committed rfl id id fun _ _ _ => rfl
  | setState key value next ih =>
    exact (ih r.committed { st with memory := Assoc.insert key value st.memory } hs hst).after_committed rfl id id
      fun _ _ _ => rfl
  | setData key value next ih =>
    exact (ih r.committed { st with data := Assoc.insert key value st.data } hs hst).after_committed rfl id id
      fun _ _ _ => rfl
  | literalText which next ih => exact (ih _ _ st (hs.2.2 _) hst).after_same rfl rfl rfl rfl rfl (absurd · Bool.false_ne_true) rfl
  | compile which next ih =>
    obtain ⟨rfl, hright, hnext⟩ := hs
    obtain ⟨after, hrun, hafter, hcalm⟩ := hask.compile st hst
    simp only [runScript, hrun]
    exact (ih _ _ after hnext hafter).after_committed rfl (absurd · Bool.false_ne_true) id
      fun place hc _ => hcalm place (hc hright)
  | chain next ih =>
    obtain ⟨hright, hnext⟩ := hs
    obtain ⟨after, hrun, hafter, hcalm⟩ := hask.chain st hst
    simp only [runScript, hrun]
    exact (ih _ _ after hnext hafter).after_committed rfl id (absurd · Bool.false_ne_true)
      fun place _ hc => hcalm place (hc hright)
  | embed target src bindings next ih =>
    obtain ⟨after, answer, hrun, hafter, hcalm, herror⟩ := hask.embed target src bindings st hst
    simp only [runScript, hrun]
    cases answer with
    | error e =>
      obtain rfl := herror e rfl
      exact ih _ r after (hs.1 e) hafter
    | ok u => exact (ih _ _ after hs.2 hafter).after_committed rfl id id fun place _ _ => hcalm place
  | cancel next ih => exact hs.elim

end Scripts

/-! ### Nodes -/

/-- The heads of the regular children and of the parts of the chain are those of all children. -/
theorem headsAtAll_regular_parts (place : Position) (children : List Node) :
    Node.headsAtAll place (children.filter (selects .regular)) + Node.headsAtAll place (children.filter Node.isPart) =
      Node.headsAtAll place children := by
  have hnot : (fun n => !selects .regular n) = Node.isPart := by
    funext n
    simp [selects]
  rw [← Markup.headsAtAll_filter place (selects .regular) children, hnot]

/-- Including a source records no error of the template itself, and changes nothing when it fails. -/
def EmbedTame (embed : Embedder) : Prop :=
  ∀ env : Env, env.registry = registry → ∀ target src bindings st, st.canceled = false →
    ∃ after r, embed env target src bindings st = (r, after) ∧ after.canceled = false ∧
      (∀ place, after.failuresAt env.unit.path place = st.failuresAt env.unit.path place) ∧ ∀ e, r = .error e → after = st

/-- Errors at a place can only come from elsewhere: no such head is among the nodes, unless these are included. -/
def Env.Calm (env : Env) (ns : List Node) (place : Position) : Prop :=
  env.currentPath = env.unit.path → Node.headsAtAll place ns = 0

/-- A step of a compilation that cancels nothing and records errors at the places of the nodes only. -/
def Env.Steps (env : Env) (ns : List Node) (st after : State) : Prop :=
  after.canceled = false ∧
    ∀ place, env.Calm ns place → after.failuresAt env.unit.path place = st.failuresAt env.unit.path place

/-- Compiling the node, as a node or as a part of a chain, is such a step. -/
def NodeTame (embed : Embedder) (env : Env) (n : Node) : Prop :=
  (∀ st, st.canceled = false → env.Steps [n] st (compileNode embed env n st)) ∧
    ∀ d owner st, (∀ p ∈ d.parts, Orderly p ∧ p.parts = []) → st.canceled = false →
      env.Steps [n] st (compilePart embed env d owner n st)

section Nodes
variable {env : Env} {embed : Embedder}

theorem Env.Steps.refl (ns : List Node) {st : State} (hst : st.canceled = false) : env.Steps ns st st :=
  ⟨hst, fun _ _ => rfl⟩

theorem Env.Steps.cons {n : Node} {ns : List Node} {st st₁ st₂ : State} (h : env.Steps [n] st st₁)
    (h' : env.Steps ns st₁ st₂) : env.Steps (n :: ns) st st₂ := by
  refine ⟨h'.1, fun place hplace => (h'.2 place fun hown => ?_).trans (h.2 place fun hown => ?_)⟩
  · have := hplace hown
    rw [Markup.headsAtAll_cons] at this
    omega
  · have := hplace hown
    simp only [Markup.headsAtAll_cons, Markup.headsAtAll_nil] at this ⊢
    omega

theorem tame_compileNodes (which : Selection) : ∀ ns : List Node, (∀ n ∈ ns, NodeTame embed env n) → ∀ st,
    st.canceled = false → ∃ after, compileNodes embed env which ns st = (.ok (), after) ∧
      env.Steps (ns.filter (selects which)) st after
  | [], _, st, hst => ⟨st, rfl, .refl [] hst⟩
  | n :: ns, h, st, hst => by
    obtain ⟨hn, hns⟩ := List.forall_mem_cons.mp h
    have ih := tame_compileNodes which ns hns
    cases hselects : selects which n with
    | true =>
      have hfirst := hn.1 st hst
      obtain ⟨after, hrun, hrest⟩ := ih _ hfirst.1
      refine ⟨after, ?_, ?_⟩
      · simp only [compileNodes, hselects, hst, if_true, Bool.false_eq_true, if_false, hrun]
      · rw [List.filter_cons_of_pos hselects]
        exact hfirst.cons hrest
    | false =>
      obtain ⟨after, hrun, hrest⟩ := ih st hst
      refine ⟨after, ?_, ?_⟩
      · simp only [compileNodes, hselects, Bool.false_eq_true, if_false, hrun]
      · rwa [List.filter_cons_of_neg (by simp [hselects])]

theorem tame_compileParts {d : Definition} (hd : ∀ p ∈ d.parts, Orderly p ∧ p.parts = []) (owner : Bytes) :
    ∀ ns : List Node, (∀ n ∈ ns, NodeTame embed env n) → ∀ st, st.canceled = false →
      ∃ after, compileParts embed env d owner ns st = (.ok (), after) ∧ env.Steps (ns.filter Node.isPart) st after
  | [], _, st, hst => ⟨st, rfl, .refl [] hst⟩
  | n :: ns, h, st, hst => by
    obtain ⟨hn, hns⟩ := List.forall_mem_cons.mp h
    have ih := tame_compileParts hd owner ns hns
    cases hpart : n.isPart with
    | true =>
      have hfirst := hn.2 d owner st hd hst
      obtain ⟨after, hrun, hrest⟩ := ih _ hfirst.1
      refine ⟨after, ?_, ?_⟩
      · simp only [compileParts, hpart, hst, if_true, Bool.false_eq_true, if_false, hrun]
      · rw [List.filter_cons_of_pos hpart]
        exact hfirst.cons hrest
    | false =>
      obtain ⟨after, hrun, hrest⟩ := ih st hst
      refine ⟨after, ?_, ?_⟩
      · simp only [compileParts, hpart, Bool.false_eq_true, if_false, hrun]
      · rwa [List.filter_cons_of_neg (by simp [hpart])]

variable (env) in
/-- The error of a node is at its head. -/
theorem failuresAt_head (st : State) (tag : Tag) (d : Diagnostic) (hpath : d.path = env.currentPath)
    (hplace : d.at? = some tag.span.start) {n : Node} (hn : ∀ place, tag.startsAt place ≤ n.headsAt place) :
    ∀ place, env.Calm [n] place → (st.report d).failuresAt env.unit.path place = st.failuresAt env.unit.path place := by
  intro place hcalm
  rw [failuresAt_report, if_neg, Nat.add_zero]
  rintro ⟨hown, hat⟩
  have hhead := hn place
  have hnone := hcalm (hpath.symm.trans hown)
  simp only [Markup.headsAtAll_cons, Markup.headsAtAll_nil, Nat.add_zero] at hnone
  rw [hplace] at hat
  simp only [Tag.startsAt, Option.some.inj hat, if_true] at hhead
  omega

variable (env) in
theorem steps_reject (st : State) (hst : st.canceled = false) (tag : Tag) (kind : DiagnosticKind) (message : Bytes)
    {n : Node} (hn : ∀ place, tag.startsAt place ≤ n.headsAt place) :
    env.Steps [n] st (st.reject env tag kind message) :=
  ⟨hst, failuresAt_head env (st.emit env.part [.comment message]) tag _ rfl rfl hn⟩

/-- The heads below a node are heads of the node. -/
theorem Env.Calm.children {tag : Tag} {n : Node} {children : List Node} {place : Position} (h : env.Calm [n] place)
    (hn : n.headsAt place = tag.startsAt place + Node.headsAtAll place children) (choose : Node → Bool) :
    env.Calm (children.filter choose) place := by
  intro hown
  have hnone := h hown
  have hfilter := Markup.headsAtAll_filter place choose children
  simp only [Markup.headsAtAll_cons, Markup.headsAtAll_nil] at hnone
  omega

theorem steps_contained {ask : Requests} {d : Definition} (hd : Orderly d) {tag : Tag} {n : Node} {children : List Node}
    (hn : ∀ place, n.headsAt place = tag.startsAt place + Node.headsAtAll place children)
    (hask : Tame env.unit.path (env.Calm (children.filter (selects .regular))) (env.Calm (children.filter Node.isPart)) ask)
    (owner : Bytes) (st : State) (hst : st.canceled = false) :
    env.Steps [n] st (contained env ask tag d owner st) := by
  have hlife := tamed_runScript env hask (lifeScript d tag owner env.unit) {} st (hd.life tag owner env.unit) hst
  rw [← lifecycle_eq] at hlife
  have hcalm (place : Position) (h : env.Calm [n] place) :=
    hlife.failures place (fun _ => h.children (hn place) _) fun _ => h.children (hn place) _
  unfold contained
  rcases hrun : lifecycle env ask tag d owner st with ⟨e | u, after⟩ <;> rw [hrun] at hlife hcalm
  · refine ⟨hlife.running, fun place h => ?_⟩
    have hhead := failuresAt_head env ((after.backTo st.out.mark).emit env.part [.comment ("error in @" ++ tag.name)])
      tag (hookError env tag e) rfl rfl (fun place => Nat.le.intro (hn place).symm) place h
    exact hhead.trans (hcalm place h)
  · exact ⟨hlife.running, hcalm⟩

variable (hregistry : env.registry = registry) (hembed : EmbedTame embed)
include hregistry hembed

/-- What hooks of a node ask for comes back to its children. -/
theorem tame_requests {d : Definition} (hd : ∀ p ∈ d.parts, Orderly p ∧ p.parts = []) (owner : Bytes)
    {children : List Node} (hchildren : ∀ c ∈ children, NodeTame embed env c) :
    Tame env.unit.path (env.Calm (children.filter (selects .regular))) (env.Calm (children.filter Node.isPart))
      (requests embed env d owner children) :=
  ⟨fun st hst => tame_compileNodes .regular children hchildren st hst,
    fun st hst => tame_compileParts hd owner children hchildren st hst, hembed env hregistry⟩

theorem nodeTame (n : Node) : NodeTame embed env n := by
  induction n using Node.byChildren with
  | h n ih =>
    cases n with
    | text value span => exact ⟨fun st hst => ⟨hst, fun _ _ => rfl⟩, fun d owner st _ hst => .refl _ hst⟩
    | interpolation expr escaped span =>
      refine ⟨fun st hst => ?_, fun d owner st _ hst => .refl _ hst⟩
      rw [compileNode]
      split <;> exact ⟨hst, fun _ _ => rfl⟩
    | directive tag children =>
      have hn := fun place => Markup.headsAt_directive place tag children
      have hreject (st : State) (hst : st.canceled = false) (kind : DiagnosticKind) (message : Bytes) :=
        steps_reject env st hst tag kind message fun place => Nat.le.intro (hn place).symm
      refine ⟨fun st hst => ?_, fun d owner st _ hst => .refl _ hst⟩
      rw [compileNode]
      split
      · exact hreject st hst _ _
      · exact hreject st hst _ _
      · exact hreject st hst _ _
      · split
        · exact hreject st hst _ _
        · rename_i d hd
          obtain ⟨horderly, hparts⟩ := orderly_of_mem_all (mem_all_of_lookup (hregistry ▸ hd)).1
          exact steps_contained horderly hn (tame_requests hregistry hembed hparts tag.name ih) tag.name
            { st with data := [] } hst
    | part parent tag children =>
      have hn := fun place => Markup.headsAt_part place parent tag children
      have hreject (st : State) (hst : st.canceled = false) (kind : DiagnosticKind) (message : Bytes) :=
        steps_reject env st hst tag kind message fun place => Nat.le.intro (hn place).symm
      refine ⟨fun st hst => hreject st hst _ _, fun d owner st hd hst => ?_⟩
      rw [compilePart]
      split
      · exact hreject st hst _ _
      · rename_i p hp
        obtain ⟨horderly, hflat⟩ := hd p (List.mem_of_find?_eq_some hp)
        have hnone : ∀ q ∈ p.parts, Orderly q ∧ q.parts = [] := by simp [hflat]
        exact steps_contained horderly hn (tame_requests hregistry hembed hnone owner ih) owner st hst

end Nodes

/-- The induction is on the includes that may still follow. -/
theorem embedTame_embedAt : ∀ depth, EmbedTame (embedAt depth)
  | 0, _, _, _, _, _, st, hst => ⟨st, _, rfl, hst, fun _ => rfl, fun _ _ => rfl⟩
  | depth + 1, env, hregistry, target, src, bindings, st, hst => by
    rcases embedAt_cases depth env target src with ⟨nodes, haccepts⟩ | ⟨e, hrefused⟩
    · have hinside : (env.inside target).registry = registry := hregistry
      obtain ⟨after, hrun, hafter, hcalm⟩ := tame_compileNodes .all nodes
        (fun n _ => nodeTame hinside (embedTame_embedAt depth) n) (st.including env.part target src bindings)
        (by unfold State.including; dsimp only; split <;> exact hst)
      rw [embedAt_of_accepts haccepts, hrun]
      refine ⟨_, _, rfl, hafter, fun place => ?_, nofun⟩
      -- errors of included nodes are those of another template
      have helsewhere : (env.inside target).Calm (nodes.filter (selects .all)) place := by
        intro hown
        exact absurd hown (by simp [Env.currentPath, Env.inside, haccepts.other])
      refine (hcalm place helsewhere).trans ?_
      unfold State.including
      dsimp only
      split <;> rfl
    · exact ⟨st, _, hrefused bindings st, hst, fun _ => rfl, fun _ _ => rfl⟩

end Stencil.Compile
