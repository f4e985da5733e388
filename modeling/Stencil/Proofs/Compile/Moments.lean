import Mathlib.Computability.StateTransition
import Stencil.Proofs.Compile.Life
import Stencil.Proofs.Compile.Trees

/-! # Compiling, moment by moment

A compilation as a machine: what it is doing, what waits for that, and the includes that are open, on a stack that
grows when a source is included and shrinks when its nodes are done. Nothing bounds its run but the guard of an
include. `compileOne_eq` says what becomes of one node, `embedAt_eq` what the guard lets through. -/

namespace Stencil.Compile

open Stencil.Directive
open Stencil.Markup (Node Tag)

/-! ### Nodes and requests -/

/-- How nodes are compiled: as children, or as parts of the chain of a directive. -/
inductive Way where
  | children (which : Selection)
  | chain (d : Definition) (owner : Bytes)

def Way.takes : Way → Node → Bool
  | .children which, n => selects which n
  | .chain _ _, n => n.isPart

/-- Where a script runs: its directive, the directive that started the chain, and the children. -/
structure Site where
  definition : Definition
  owner : Bytes
  children : List Node

inductive Visit where
  | change (st : State)
  /-- A directive lives. If it starts a chain, what the chain around it remembers is put aside. -/
  | directive (tag : Tag) (site : Site) (aside : Option Bindings)

def Env.visit (env : Env) : Way → Node → State → Visit
  | .children _, .text value _, st => .change (st.add env.part value)
  | .children _, .interpolation expr escaped _, st =>
    .change (if st.out.loader = primaryLoader then st.emit env.part [.emit expr escaped] else st.add env.part expr)
  | .children _, .part owner tag _, st =>
    .change (st.reject env tag .misplacedPart ("@" ++ tag.name ++ " is only valid inside @" ++ owner))
  | .children _, .directive tag children, st =>
    match tag.problem with
    | .unknown => .change (st.reject env tag .unknownDirective ("unknown directive @" ++ tag.name))
    | .misplaced =>
      .change (st.reject env tag .misplacedPart ("@" ++ tag.name ++ " is only valid inside @"
        ++ Bytes.join ", @" (env.registry.parentsOf tag.name)))
    | .strayTerminator => .change (st.reject env tag .strayTerminator ("@" ++ tag.name ++ " without an open block"))
    | .none =>
      match env.registry.lookup tag.name with
      | none => .change (st.reject env tag .unknownDirective ("unknown directive @" ++ tag.name))
      | some d => .directive tag ⟨d, tag.name, children⟩ (some st.data)
  | .chain d owner, .part _ tag children, st =>
    match d.part? tag.name with
    | none =>
      .change (st.reject env tag .misplacedPart ("@" ++ tag.name ++ " is not a sub-directive of @" ++ d.name))
    | some p => .directive tag ⟨p, owner, children⟩ none
  | .chain _ _, _, st => .change st

def State.opening (st : State) : Option Bindings → State
  | none => st
  | some _ => { st with data := [] }

/-- The state after a directive, which gives back what it produced if it failed. -/
def State.settle (st : State) (env : Env) (tag : Tag) (mark : Mark) (aside : Option Bindings)
    (r : Except Failure Unit) : State :=
  let st := match r with
    | .ok _ => st
    | .error e => st.rollback mark env tag e
  match aside with
  | none => st
  | some data => { st with data }

def State.leaveHook (st : State) (env : Env) (d : Definition) (mark : Mark) : Except Failure Unit → State
  | .ok _ => st
  | .error e =>
    (st.backTo mark).report
      { kind := .hook, name := d.name, path := env.unit.path,
        message := "@" ++ d.name ++ " file hook: " ++ e.message }

/-- A request that the state answers; others stay. -/
def Env.reply (env : Env) (children : List Node) : Script Unit → State → Script Unit × State
  | .emit place instrs next, st => (next, st.emit (env.place place) instrs)
  | .newLabel next, st => (next (st.labels + 1), { st with labels := st.labels + 1 })
  | .add text next, st => (next, st.add env.part text)
  | .loader next, st => (next st.out.loader, st)
  | .useLoader name next, st => (next, { st with out := { st.out with loader := name } })
  | .literalText which next, st => (next (literalText which children), st)
  | .resolve path next, st => (next (env.resolve st path), st)
  | .getState key next, st => (next (Assoc.get? key st.memory), st)
  | .setState key value next, st => (next, { st with memory := Assoc.insert key value st.memory })
  | .getData key next, st => (next (Assoc.get? key st.data), st)
  | .setData key value next, st => (next, { st with data := Assoc.insert key value st.data })
  | .log line next, st => (next, { st with log := st.log ++ [line] })
  | .cancel next, st => (next, { st with canceled := true })
  | s, st => (s, st)

/-- The guard of an include, and the nodes of its source. -/
def Env.enter (env : Env) (path src : Bytes) : Except Failure (List Node) :=
  if maxIncludes ≤ env.embeds.length then .error (.includeTooDeep maxIncludes path)
  else match cycleFrom path env.embeds with
    | some through => .error (.includeCycle through path)
    | none =>
      if path = env.unit.path then .error (.includesItself path)
      else match Markup.parse env.registry env.options path src with
        | .error d => .error (.within ("failed to parse " ++ path) (.diagnostic d))
        | .ok nodes => .ok nodes

/-! ### Moments -/

inductive Doing where
  /-- The hooks of these directives at the start or the end of the template are still to run. -/
  | hooks (ds : List Definition)
  | list (way : Way) (ns : List Node)
  | node (way : Way) (n : Node)
  | script (site : Site) (s : Script Unit)
  /-- What was to be done is done. -/
  | answer (r : Except Failure Unit)

/-- What is done once there is an answer. -/
inductive Waiting where
  | list (way : Way) (ns : List Node)
  | script (site : Site) (next : Except Failure Unit → Script Unit)
  | directive (tag : Tag) (mark : Mark) (aside : Option Bindings)
  /-- An included source is left. -/
  | inclusion
  | hook (d : Definition) (mark : Mark) (ds : List Definition)
  /-- The nodes of the template follow the hooks at its start. -/
  | body (nodes : List Node)
  /-- The hooks at the end of the template follow its nodes. -/
  | ending

structure Moment where
  doing : Doing
  waiting : List Waiting
  state : State
  part : Section
  /-- The includes that are open, outermost first. -/
  embeds : List Bytes

def Env.during (env : Env) (m : Moment) : Env := { env with part := m.part, embeds := m.embeds }

def fileHook (part : Section) (d : Definition) : Option (UnitInfo → Script Unit) :=
  match part with
  | .pre => d.onInitFile
  | .body => none
  | .post => d.onEndFile

namespace Moment

def goOn (m : Moment) (doing : Doing) : Moment := { m with doing }

/-- Turns to something else first. -/
def await (m : Moment) (w : Waiting) (doing : Doing) : Moment := { m with doing, waiting := w :: m.waiting }

def hooks (env : Env) (m : Moment) : List Definition → Moment
  | [] => m.goOn (.answer (.ok ()))
  | d :: ds =>
    match fileHook m.part d with
    | none => m.goOn (.hooks ds)
    | some f => m.await (.hook d m.state.out.mark ds) (.script ⟨d, [], []⟩ (f env.unit))

def list (m : Moment) (way : Way) : List Node → Moment
  | [] => m.goOn (.answer (.ok ()))
  | n :: ns =>
    if way.takes n then
      if m.state.canceled then m.goOn (.answer (.error .canceled))
      else m.await (.list way ns) (.node way n)
    else m.goOn (.list way ns)

def node (env : Env) (m : Moment) (way : Way) (n : Node) : Moment :=
  match (env.during m).visit way n m.state with
  | .change st => { m.goOn (.answer (.ok ())) with state := st }
  | .directive tag site aside =>
    { m.await (.directive tag m.state.out.mark aside)
        (.script site (lifeScript site.definition tag site.owner env.unit)) with state := m.state.opening aside }

def script (env : Env) (m : Moment) (site : Site) : Script Unit → Moment
  | .done _ => m.goOn (.answer (.ok ()))
  | .fail e => m.goOn (.answer (.error e))
  | .abort text => m.goOn (.answer (.error (.panicked text)))
  | .compile which next => m.await (.script site next) (.list (.children which) site.children)
  | .chain next => m.await (.script site next) (.list (.chain site.definition site.owner) site.children)
  | .embed path src bindings next =>
    match (env.during m).enter path src with
    | .error e => m.goOn (.script site (next (.error e)))
    | .ok nodes =>
      { m with
        doing := .list (.children .all) nodes
        waiting := .inclusion :: .script site next :: m.waiting
        state := m.state.including m.part path src bindings
        embeds := m.embeds ++ [path] }
  | s =>
    { m.goOn (.script site ((env.during m).reply site.children s m.state).1) with
      state := ((env.during m).reply site.children s m.state).2 }

/-- An answer is taken by what waits for it. -/
def resume (env : Env) (m : Moment) (r : Except Failure Unit) : Waiting → Moment
  | .list way ns => m.goOn (.list way ns)
  | .script site next => m.goOn (.script site (next r))
  | .directive tag mark aside =>
    { m.goOn (.answer (.ok ())) with state := m.state.settle (env.during m) tag mark aside r }
  | .inclusion =>
    { m.goOn (.answer r) with
      state := if r.isOk then m.state.emit m.part [.exit .merge []] else m.state
      embeds := m.embeds.dropLast }
  | .hook d mark ds => { m.goOn (.hooks ds) with state := m.state.leaveHook env d mark r }
  | .body nodes => { m.await .ending (.list (.children .all) nodes) with part := .body }
  | .ending =>
    match r with
    | .ok _ => { m.goOn (.hooks env.registry.definitions) with part := .post }
    | .error e => m.goOn (.answer (.error e))

/-- The next moment, unless everything is done. -/
def next (env : Env) (m : Moment) : Option Moment :=
  match m.doing with
  | .hooks ds => some (m.hooks env ds)
  | .list way ns => some (m.list way ns)
  | .node way n => some (m.node env way n)
  | .script site s => some (m.script env site s)
  | .answer r =>
    match m.waiting with
    | [] => none
    | w :: ws => some ({ m with waiting := ws }.resume env r w)

/-- What came of the compilation, at its last moment. -/
def result (m : Moment) (path : Bytes) : Except Failure Template :=
  match m.doing with
  | .answer (.error e) => .error e
  | _ => .ok (m.state.template path)

def compilation (m : Moment) (path : Bytes) : Compilation where
  result := m.result path
  log := m.state.log
  canceled := m.state.canceled
  seals := true

end Moment

def Options.ahead (options : Options) (r : Registry) (nodes : List Node) : List Bytes :=
  if 1 < options.concurrency ∧ options.resolver.isSome then (directiveTagsList nodes).filterMap (prefetchPath r) else []

/-- The first moment. A cancelled compilation ends at once when there are sources to load. -/
def Options.begin (options : Options) (r : Registry) (canceled : Bool) (nodes : List Node) : Moment :=
  if canceled ∧ options.ahead r nodes ≠ [] then ⟨.answer (.error .canceled), [], { canceled }, .pre, []⟩
  else ⟨.hooks r.definitions, [.body nodes], { canceled }, .pre, []⟩

/-! ### What nodes and includes come to -/

section
variable (embed : Embedder) (env : Env)

def compileList : Way → List Node → State → Outcome Unit
  | .children which => compileNodes embed env which
  | .chain d owner => compileParts embed env d owner

def compileOne : Way → Node → State → State
  | .children _ => compileNode embed env
  | .chain d owner => compilePart embed env d owner

theorem compileList_nil (way : Way) (st : State) : compileList embed env way [] st = (.ok (), st) := by
  cases way <;> rfl

theorem compileList_cons (way : Way) (n : Node) (ns : List Node) (st : State) :
    compileList embed env way (n :: ns) st =
      if way.takes n then
        if st.canceled then (.error .canceled, st)
        else compileList embed env way ns (compileOne embed env way n st)
      else compileList embed env way ns st := by
  cases way with
  | children which => rw [compileList, compileNodes]; rfl
  | chain d owner => rw [compileList, compileParts]; rfl

def liveAt (tag : Tag) (site : Site) (aside : Option Bindings) (st : State) : State :=
  let o := runScript env (requests embed env site.definition site.owner site.children)
    (lifeScript site.definition tag site.owner env.unit) (st.opening aside)
  o.2.settle env tag st.out.mark aside o.1

theorem contained_eq (ask : Requests) (tag : Tag) (d : Definition) (owner : Bytes) (st : State) :
    contained env ask tag d owner st =
      State.settle (runScript env ask (lifeScript d tag owner env.unit) st).2 env tag st.out.mark none
        (runScript env ask (lifeScript d tag owner env.unit) st).1 := by
  rw [contained, lifecycle_eq]
  rcases runScript env ask (lifeScript d tag owner env.unit) st with ⟨e | u, after⟩ <;> rfl

theorem compileOne_eq (way : Way) (n : Node) (st : State) :
    compileOne embed env way n st =
      match env.visit way n st with
      | .change st' => st'
      | .directive tag site aside => liveAt embed env tag site aside st := by
  cases way with
  | children which =>
    cases n with
    | text value span => rfl
    | interpolation expr escaped span => rfl
    | part owner tag children => rfl
    | directive tag children =>
      simp only [compileOne, compileNode, Env.visit]
      cases tag.problem with
      | unknown | misplaced | strayTerminator => rfl
      | none =>
        cases env.registry.lookup tag.name with
        | none => rfl
        | some d =>
          simp only [contained_eq]
          rfl
  | chain d owner =>
    cases n with
    | part parent tag children =>
      simp only [compileOne, compilePart, Env.visit]
      cases d.part? tag.name with
      | none => rfl
      | some p =>
        simp only [contained_eq]
        rfl
    | text _ _ | interpolation _ _ _ | directive _ _ => rfl

/-- There are no children at the start and the end of a template. -/
theorem runFileHook_some (d : Definition) (f : UnitInfo → Script Unit) (st : State) :
    runFileHook env d (some f) st =
      State.leaveHook (runScript env (requests embedder env d [] []) (f env.unit) st).2 env d st.out.mark
        (runScript env (requests embedder env d [] []) (f env.unit) st).1 := by
  have hask : requests embedder env d [] [] = fileRequests env := rfl
  rw [runFileHook, hask]
  rcases runScript env (fileRequests env) (f env.unit) st with ⟨e | u, after⟩ <;> rfl

/-- An include is compiled when the guard lets it through, which it does as long as more includes may follow. -/
theorem embedAt_eq {depth : Nat} (env : Env) (hdepth : env.embeds.length + depth = maxIncludes)
    (path src bindings : Bytes) (st : State) :
    embedAt depth env path src bindings st =
      match env.enter path src with
      | .error e => (.error e, st)
      | .ok nodes =>
        andThen (compileNodes (embedAt (depth - 1)) (env.inside path) .all nodes
            (st.including env.part path src bindings))
          fun _ st => (.ok (), st.emit env.part [.exit .merge []]) := by
  cases depth with
  | zero =>
    rw [Env.enter, if_pos (by omega)]
    rfl
  | succ depth =>
    rw [Env.enter, if_neg (by omega), embedAt]
    cases hcycle : cycleFrom path env.embeds with
    | some through => rfl
    | none =>
      by_cases hself : path = env.unit.path
      · simp only [if_pos hself]
      · simp only [if_neg hself]
        cases Markup.parse env.registry env.options path src with
        | error d => rfl
        | ok nodes => rfl

end

end Stencil.Compile
