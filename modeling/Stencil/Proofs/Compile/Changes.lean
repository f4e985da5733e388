import Stencil.Proofs.Compile.Scripts
import Stencil.Proofs.Directive.Requests
import Stencil.Markup.Node

/-! # What compiling keeps

A compilation changes its state in a few ways: instructions and text are added, a loader is selected, an
include is recorded, an error is reported, and a failing node gives back what it produced. A relation that
none of these breaks (`Kept`) holds between the states before and after every script, node and include,
whatever the tree is and wherever it fails. The instructions of hooks may be restricted. -/

namespace Stencil.Compile

open Stencil.Directive
open Stencil.Markup (Node Tag)

/-! ### Changes -/

/-- No change of a compilation breaks the relation, as long as its hooks emit allowed instructions. -/
structure Kept (allowed : Instr → Prop) (R : State → State → Prop) : Prop where
  /-- Only instructions about placeholders may be refused. -/
  plain : ∀ i : Instr, i.op ≠ .placeholder → i.op ≠ .resolve → allowed i
  refl : ∀ st, R st st
  trans : ∀ {st₁ st₂ st₃}, R st₁ st₂ → R st₂ st₃ → R st₁ st₃
  emit : ∀ st part code, (∀ i ∈ code, allowed i) → R st (st.emit part code)
  add : ∀ st part text, R st (st.add part text)
  select : ∀ (st : State) name, R st { st with out := { st.out with loader := name } }
  /-- Labels, what hooks remember and the log. -/
  silent : ∀ {st st' : State}, st'.out = st.out → st'.errors = st.errors → st'.deps = st.deps →
    (st.canceled = true → st'.canceled = true) → R st st'
  record : ∀ (st : State) path digest, R st { st with deps := Assoc.insert path digest st.deps }
  report : ∀ (st : State) {d : Diagnostic}, d.at?.isSome → R st (st.report d)
  backTo : ∀ {st st' : State}, R st st' → R st (st'.backTo st.out.mark)

/-- Some directives emit only allowed instructions, and so do their parts. -/
structure Vetted (allowed : Instr → Prop) (D : Definition → Prop) : Prop where
  only : ∀ d, D d → d.Only allowed
  parts : ∀ d, D d → ∀ p ∈ d.parts, D p

/-- The directives that templates may use. -/
def Env.Uses (env : Env) (D : Definition → Prop) : Prop := ∀ name d, env.registry.lookup name = some d → D d

/-- No request breaks the relation. -/
structure Requests.Keeps (R : State → State → Prop) (ask : Requests) : Prop where
  compile : ∀ which st, R st (ask.compile which st).2
  chain : ∀ st, R st (ask.chain st).2
  embed : ∀ path src bindings st, R st (ask.embed path src bindings st).2

/-- No include breaks the relation. -/
def Embedder.Keeps (embed : Embedder) (D : Definition → Prop) (R : State → State → Prop) : Prop :=
  ∀ env : Env, env.Uses D → ∀ path src bindings st, R st (embed env path src bindings st).2

variable {allowed : Instr → Prop} {R : State → State → Prop} {D : Definition → Prop}

namespace Kept
variable (hR : Kept allowed R) {α β : Type} {env : Env} {ask : Requests}
include hR

theorem of_start {st st₁ st₂ : State} (h : R st₁ st₂) (hout : st₁.out = st.out) (herrors : st₁.errors = st.errors)
    (hdeps : st₁.deps = st.deps) (hcanceled : st.canceled = true → st₁.canceled = true) : R st st₂ :=
  hR.trans (hR.silent hout herrors hdeps hcanceled) h

theorem emit_plain (st : State) (part : Section) (i : Instr) (hplaceholder : i.op ≠ .placeholder)
    (hresolve : i.op ≠ .resolve) : R st (st.emit part [i]) :=
  hR.emit st part [i] fun _ hj => List.mem_singleton.mp hj ▸ hR.plain i hplaceholder hresolve

/-! ### Scripts -/

theorem runScript (hask : ask.Keeps R) {s : Script α} (hs : s.Only allowed) (st : State) :
    R st (runScript env ask s st).2 := by
  induction s generalizing st with
  | done a | fail e | abort text => exact hR.refl st
  | emit place instrs next ih => exact hR.trans (hR.emit st _ _ hs.1) (ih hs.2 _)
  | newLabel next ih => exact hR.of_start (ih _ (hs _) { st with labels := st.labels + 1 }) rfl rfl rfl id
  | add text next ih => exact hR.trans (hR.add st _ _) (ih hs _)
  | useLoader name next ih => exact hR.trans (hR.select st name) (ih hs _)
  | compile which next ih => exact hR.trans (hask.compile which st) (ih _ (hs _) _)
  | chain next ih => exact hR.trans (hask.chain st) (ih _ (hs _) _)
  | embed path src bindings next ih => exact hR.trans (hask.embed path src bindings st) (ih _ (hs _) _)
  | loader next ih | literalText which next ih | resolve path next ih | getState key next ih
  | getData key next ih => exact ih _ (hs _) st
  | setState key value next ih =>
    exact hR.of_start (ih hs { st with memory := Assoc.insert key value st.memory }) rfl rfl rfl id
  | setData key value next ih =>
    exact hR.of_start (ih hs { st with data := Assoc.insert key value st.data }) rfl rfl rfl id
  | log line next ih => exact hR.of_start (ih hs { st with log := st.log ++ [line] }) rfl rfl rfl id
  | cancel next ih => exact hR.of_start (ih hs { st with canceled := true }) rfl rfl rfl fun _ => rfl

theorem runHook (hask : ask.Keeps R) {hook : Option (Call → Script Unit)}
    (hhook : ∀ f ∈ hook, ∀ call, (f call).Only allowed) (call : Call) (st : State) :
    R st (runHook env ask call hook st).2 := by
  cases hook with
  | none => exact hR.refl st
  | some f => exact hR.runScript hask (hhook f rfl call) st

theorem andThen {o : Outcome α} {f : α → State → Outcome β} {st : State} (ho : R st o.2)
    (hf : ∀ a st₁, R st₁ (f a st₁).2) : R st (andThen o f).2 := by
  obtain ⟨r, st₁⟩ := o
  cases r with
  | error e => exact ho
  | ok a => exact hR.trans ho (hf a st₁)

theorem lifeOfChildren (hask : ask.Keeps R) {d : Definition} (hd : d.Only allowed) (call : Call) (st : State) :
    R st (lifeOfChildren env ask d call st).2 := by
  unfold Compile.lifeOfChildren
  split
  · rename_i f hf
    exact hR.runScript hask (hd.onChildren f hf call) st
  · exact hR.andThen (hask.compile .regular st) fun _ st₁ => hask.chain st₁

/-- The life of a directive from its children on. -/
theorem ending (hask : ask.Keeps R) {d : Definition} (hd : d.Only allowed) (call : Call) (st : State) :
    R st (Compile.andThen (Compile.lifeOfChildren env ask d call st) fun _ st =>
      Compile.runHook env ask call d.onEnd st).2 :=
  hR.andThen (hR.lifeOfChildren hask hd call st) fun _ st₁ => hR.runHook hask hd.onEnd call st₁

theorem lifecycle (hask : ask.Keeps R) (tag : Tag) {d : Definition} (hd : d.Only allowed) (owner : Bytes)
    (st : State) : R st (lifecycle env ask tag d owner st).2 := by
  unfold Compile.lifecycle
  split
  · exact hR.refl st
  · refine hR.andThen (hR.runHook hask hd.onInit _ st) fun _ st₁ => ?_
    exact hR.andThen (hR.runHook hask hd.onParams _ st₁) fun _ st₂ => hR.ending hask hd _ st₂

theorem reject (st : State) (env : Env) (tag : Tag) (kind : DiagnosticKind) (message : Bytes) :
    R st (st.reject env tag kind message) :=
  hR.trans (hR.emit_plain st env.part (.comment message) nofun nofun) (hR.report _ rfl)

theorem rollback {st st' : State} (h : R st st') (env : Env) (tag : Tag) (cause : Failure) :
    R st (st'.rollback st.out.mark env tag cause) :=
  hR.trans (hR.trans (hR.backTo h) (hR.emit_plain _ env.part (.comment ("error in @" ++ tag.name)) nofun nofun))
    (hR.report _ rfl)

theorem contained (hask : ask.Keeps R) (tag : Tag) {d : Definition} (hd : d.Only allowed) (owner : Bytes)
    (st : State) : R st (contained env ask tag d owner st) := by
  have hlife : R st (Compile.lifecycle env ask tag d owner st).2 := hR.lifecycle hask tag hd owner st
  unfold Compile.contained
  rcases h : Compile.lifecycle env ask tag d owner st with ⟨e | u, after⟩ <;> rw [h] at hlife
  · exact hR.rollback hlife env tag e
  · exact hlife

end Kept

/-! ### Nodes -/

/-- The requests of the hooks of a node: about its children, its chain and other templates. -/
def requests (embed : Embedder) (env : Env) (d : Definition) (owner : Bytes) (children : List Node) : Requests where
  compile which st := compileNodes embed env which children st
  chain st := compileParts embed env d owner children st
  literalText which := literalText which children
  embed := embed env

/-- Compiling the node, as a node or as a part of a chain, keeps the relation. -/
def NodeKeeps (embed : Embedder) (env : Env) (D : Definition → Prop) (R : State → State → Prop) (n : Node) : Prop :=
  (∀ st, R st (compileNode embed env n st)) ∧ ∀ d owner st, D d → R st (compilePart embed env d owner n st)

namespace Kept
variable (hR : Kept allowed R) {embed : Embedder} {env : Env}
include hR

theorem nodesOf (which : Selection) : ∀ ns : List Node, (∀ n ∈ ns, NodeKeeps embed env D R n) → ∀ st,
    R st (compileNodes embed env which ns st).2
  | [], _, st => hR.refl st
  | n :: ns, h, st => by
    have ih := nodesOf which ns fun m hm => h m (List.mem_cons_of_mem n hm)
    rw [Compile.compileNodes]
    split
    · split
      · exact hR.refl st
      · exact hR.trans ((h n List.mem_cons_self).1 st) (ih _)
    · exact ih st

theorem partsOf {d : Definition} (hd : D d) (owner : Bytes) : ∀ ns : List Node, (∀ n ∈ ns, NodeKeeps embed env D R n) →
    ∀ st, R st (compileParts embed env d owner ns st).2
  | [], _, st => hR.refl st
  | n :: ns, h, st => by
    have ih := partsOf hd owner ns fun m hm => h m (List.mem_cons_of_mem n hm)
    rw [Compile.compileParts]
    split
    · split
      · exact hR.refl st
      · exact hR.trans ((h n List.mem_cons_self).2 d owner st hd) (ih _)
    · exact ih st

variable (hD : Vetted allowed D) (henv : env.Uses D) (hembed : embed.Keeps D R)
include hD henv hembed

theorem node (n : Node) : NodeKeeps embed env D R n := by
  induction n using Node.byChildren with
  | h n ih =>
    -- what hooks ask for comes back to the children
    have hask {d : Definition} (hd : D d) (owner : Bytes) : (requests embed env d owner n.children).Keeps R :=
      ⟨fun which => hR.nodesOf which n.children ih, hR.partsOf hd owner n.children ih, hembed env henv⟩
    cases n with
    | text value span => exact ⟨fun st => hR.add st _ _, fun _ _ st _ => hR.refl st⟩
    | interpolation expr escaped span =>
      refine ⟨fun st => ?_, fun _ _ st _ => hR.refl st⟩
      rw [compileNode]
      split
      · exact hR.emit_plain st env.part (.emit expr escaped) nofun nofun
      · exact hR.add st _ _
    | directive tag children =>
      refine ⟨fun st => ?_, fun _ _ st _ => hR.refl st⟩
      rw [compileNode]
      split
      · exact hR.reject st env tag _ _
      · exact hR.reject st env tag _ _
      · exact hR.reject st env tag _ _
      · split
        · exact hR.reject st env tag _ _
        · rename_i d hlookup
          have hd : D d := henv tag.name d hlookup
          have hcontained : R { st with data := [] } (Compile.contained env _ tag d tag.name { st with data := [] }) :=
            hR.contained (hask hd tag.name) tag (hD.only d hd) tag.name _
          exact hR.trans (hR.of_start hcontained rfl rfl rfl id) (hR.silent rfl rfl rfl id)
    | part parent tag children =>
      refine ⟨fun st => hR.reject st env tag _ _, fun d owner st hd => ?_⟩
      rw [compilePart]
      split
      · exact hR.reject st env tag _ _
      · rename_i p hpart
        have hp : D p := hD.parts d hd p (List.mem_of_find?_eq_some hpart)
        exact hR.contained (hask hp owner) tag (hD.only p hp) owner st

theorem compileNodes (which : Selection) (ns : List Node) (st : State) :
    R st (compileNodes embed env which ns st).2 :=
  hR.nodesOf which ns (fun n _ => hR.node hD henv hembed n) st

theorem compileParts {d : Definition} (hd : D d) (owner : Bytes) (ns : List Node) (st : State) :
    R st (compileParts embed env d owner ns st).2 :=
  hR.partsOf hd owner ns (fun n _ => hR.node hD henv hembed n) st

/-- The requests of hooks keep the relation. -/
theorem requests {d : Definition} (hd : D d) (owner : Bytes) (children : List Node) :
    (requests embed env d owner children).Keeps R :=
  ⟨fun which => hR.compileNodes hD henv hembed which children, hR.compileParts hD henv hembed hd owner children,
    hembed env henv⟩

end Kept

/-! ### Includes -/

/-- A source that can be included: its path is not open, and it can be read. -/
structure Env.Accepts (env : Env) (path src : Bytes) (nodes : List Node) : Prop where
  closed : cycleFrom path env.embeds = none
  other : path ≠ env.unit.path
  reads : Markup.parse env.registry env.options path src = .ok nodes

/-- What the nodes of an included source are compiled with. -/
def Env.inside (env : Env) (path : Bytes) : Env := { env with embeds := env.embeds ++ [path] }

/-- The state in which the nodes of an included source are compiled: it is recorded, in a scope of its own. -/
def State.including (st : State) (part : Section) (path src bindings : Bytes) : State :=
  let opened := State.emit { st with deps := Assoc.insert path (Text.Digest.sha256 src) st.deps } part [.enter]
  if bindings = [] then opened else opened.emit part [.bind bindings]

theorem deps_including (st : State) (part : Section) (path src bindings : Bytes) :
    (st.including part path src bindings).deps = Assoc.insert path (Text.Digest.sha256 src) st.deps := by
  unfold State.including
  dsimp only
  split <;> rfl

section Embed
variable {depth : Nat} {env : Env} {path src : Bytes} {nodes : List Node}

theorem embedAt_of_accepts (h : env.Accepts path src nodes) (bindings : Bytes) (st : State) :
    embedAt (depth + 1) env path src bindings st =
      andThen (compileNodes (embedAt depth) (env.inside path) .all nodes (st.including env.part path src bindings))
        fun _ st => (.ok (), st.emit env.part [.exit .merge []]) := by
  rw [embedAt, h.closed]
  simp only [if_neg h.other, h.reads]
  rfl

/-- Any other source is refused, without a change. -/
theorem embedAt_cases (depth : Nat) (env : Env) (path src : Bytes) : (∃ nodes, env.Accepts path src nodes) ∨
    ∃ e, ∀ bindings st, embedAt (depth + 1) env path src bindings st = (.error e, st) := by
  cases hcycle : cycleFrom path env.embeds with
  | some through => exact .inr ⟨_, fun bindings st => by rw [embedAt, hcycle]⟩
  | none =>
    by_cases hself : path = env.unit.path
    · exact .inr ⟨_, fun bindings st => by rw [embedAt, hcycle]; exact if_pos hself⟩
    · cases hnodes : Markup.parse env.registry env.options path src with
      | error d => exact .inr ⟨_, fun bindings st => by rw [embedAt, hcycle]; simp only [if_neg hself, hnodes]; rfl⟩
      | ok nodes => exact .inl ⟨nodes, hcycle, hself, hnodes⟩

/-- What is made of a refused source depends only on how sources are read and on which are open. -/
theorem embedAt_congr_of_refused (env' : Env) (h : ¬ ∃ nodes, env.Accepts path src nodes)
    (hregistry : env'.registry = env.registry) (hoptions : env'.options = env.options)
    (hembeds : env'.embeds = env.embeds) (hunit : env'.unit.path = env.unit.path) (bindings : Bytes) (st : State) :
    embedAt (depth + 1) env' path src bindings st = embedAt (depth + 1) env path src bindings st := by
  cases hcycle : cycleFrom path env.embeds with
  | some through => simp only [embedAt, hembeds, hcycle]
  | none =>
    by_cases hself : path = env.unit.path
    · simp only [embedAt, hembeds, hunit, hcycle, if_pos hself]
    · cases hnodes : Markup.parse env.registry env.options path src with
      | error d => simp only [embedAt, hembeds, hunit, hregistry, hoptions, hcycle, if_neg hself, hnodes]
      | ok nodes => exact absurd ⟨nodes, hcycle, hself, hnodes⟩ h

end Embed

namespace Kept
variable (hR : Kept allowed R)
include hR

theorem including (st : State) (part : Section) (path src bindings : Bytes) :
    R st (st.including part path src bindings) := by
  have hopened : R st (State.emit { st with deps := Assoc.insert path (Text.Digest.sha256 src) st.deps } part [.enter]) :=
    hR.trans (hR.record st _ _) (hR.emit_plain _ part .enter nofun nofun)
  unfold State.including
  dsimp only
  split
  · exact hopened
  · exact hR.trans hopened (hR.emit_plain _ part (.bind bindings) nofun nofun)

/-- Includes keep the relation. The induction is on the includes that may still follow. -/
theorem embedAt (hD : Vetted allowed D) : ∀ depth, (embedAt depth).Keeps D R
  | 0, _, _, _, _, _, st => hR.refl st
  | depth + 1, env, henv, path, src, bindings, st => by
    rcases embedAt_cases depth env path src with ⟨nodes, haccepts⟩ | ⟨e, hrefused⟩
    · rw [embedAt_of_accepts haccepts]
      have hinside : (env.inside path).Uses D := henv
      have hnodes := hR.compileNodes hD hinside (embedAt hD depth) .all nodes (st.including env.part path src bindings)
      exact hR.andThen (hR.trans (hR.including st env.part path src bindings) hnodes) fun _ st₁ =>
        hR.emit_plain st₁ env.part (.exit .merge []) nofun nofun
    · rw [hrefused]
      exact hR.refl st

end Kept

end Stencil.Compile
