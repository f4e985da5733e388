import Stencil.Compile.State

/-!
# Running of hooks and compiling of nodes

A hook's script is run against the state of the compilation; what it asks about the node it
belongs to, and about other templates, is answered by `Requests`. Compiling a node recurses on the
tree, and an include starts over on another tree, one level deeper.
-/
namespace Stencil.Compile

open Stencil.Directive
open Stencil.Markup (Node Tag)

/-- Answers to the requests of a script that reach beyond the state. -/
structure Requests where
  compile : Selection → State → Outcome Unit
  chain : State → Outcome Unit
  literalText : Selection → Except Failure Bytes
  embed : (path src bindings : Bytes) → State → Outcome Unit

/-- The source of another template: loaded ahead, or from the resolver. -/
def Env.resolve (env : Env) (st : State) (path : Bytes) : Except Failure Bytes :=
  match Assoc.get? path env.prefetched with
  | some src => .ok src
  | none =>
    match env.resolver with
    | none => .error (.noResolver path)
    | some r => if st.canceled then .error .canceled else r path

/-- Where instructions of a script go. -/
def Env.place (env : Env) : Place → Section
  | .here => env.part
  | .before => .pre
  | .after => .post

/-- Runs a script. -/
def runScript {α : Type} (env : Env) (ask : Requests) : Script α → State → Outcome α
  | .done a, st => (.ok a, st)
  | .fail e, st => (.error e, st)
  | .abort text, st => (.error (.panicked text), st)
  | .emit place instrs next, st => runScript env ask next (st.emit (env.place place) instrs)
  | .newLabel next, st =>
    runScript env ask (next (st.labels + 1)) { st with labels := st.labels + 1 }
  | .add text next, st => runScript env ask next (st.add env.part text)
  | .loader next, st => runScript env ask (next st.out.loader) st
  | .useLoader name next, st =>
    runScript env ask next { st with out := { st.out with loader := name } }
  | .compile which next, st =>
    let (r, st) := ask.compile which st
    runScript env ask (next r) st
  | .chain next, st =>
    let (r, st) := ask.chain st
    runScript env ask (next r) st
  | .literalText which next, st => runScript env ask (next (ask.literalText which)) st
  | .resolve path next, st => runScript env ask (next (env.resolve st path)) st
  | .embed path src bindings next, st =>
    let (r, st) := ask.embed path src bindings st
    runScript env ask (next r) st
  | .getState key next, st => runScript env ask (next (Assoc.get? key st.memory)) st
  | .setState key value next, st =>
    runScript env ask next { st with memory := Assoc.insert key value st.memory }
  | .getData key next, st => runScript env ask (next (Assoc.get? key st.data)) st
  | .setData key value next, st =>
    runScript env ask next { st with data := Assoc.insert key value st.data }
  | .log line next, st => runScript env ask next { st with log := st.log ++ [line] }
  | .cancel next, st => runScript env ask next { st with canceled := true }

/-- Runs a hook, if there is one. -/
def runHook (env : Env) (ask : Requests) (call : Call) (hook : Option (Call → Script Unit))
    (st : State) : Outcome Unit :=
  match hook with
  | none => (.ok (), st)
  | some f => runScript env ask (f call) st

/-- Goes on after a success. -/
def andThen {α β : Type} (x : Outcome α) (f : α → State → Outcome β) : Outcome β :=
  match x with
  | (.ok a, st) => f a st
  | (.error e, st) => (.error e, st)

/-- The life of a directive at one use: its arguments are read, then its hooks run in order. A
directive without a hook for its children compiles them, then the parts of its chain. -/
def lifecycle (env : Env) (ask : Requests) (tag : Tag) (d : Definition) (owner : Bytes)
    (st : State) : Outcome Unit :=
  match Argument.read tag.expr d.params with
  | .error e => (.error (.arguments e), st)
  | .ok args =>
    let call : Call := { tag, args, owner, unit := env.unit }
    andThen (runHook env ask call d.onInit st) fun _ st =>
    andThen (runHook env ask call d.onParams st) fun _ st =>
    andThen
      (match d.onChildren with
        | some f => runScript env ask (f call) st
        | none => andThen (ask.compile .regular st) fun _ st => ask.chain st) fun _ st =>
    runHook env ask call d.onEnd st

/-- One use of a directive. A failure is contained: what the node produced is given back. -/
def contained (env : Env) (ask : Requests) (tag : Tag) (d : Definition) (owner : Bytes)
    (st : State) : State :=
  match lifecycle env ask tag d owner st with
  | (.ok _, after) => after
  | (.error e, after) => after.rollback st.out.mark env tag e

/-- The children that a selection takes. -/
def selects : Selection → Node → Bool
  | .regular, n => !n.isPart
  | .all, _ => true

/-- Nodes as literal text: directives have none. -/
def literalText (which : Selection) : List Node → Except Failure Bytes
  | [] => .ok []
  | n :: ns =>
    if selects which n then
      match n with
      | .text value _ => (literalText which ns).map (value ++ ·)
      | .interpolation expr _ _ => (literalText which ns).map (expr ++ ·)
      | .directive tag _ => .error (.inLiteralContent tag.name tag.span.start.line)
      | .part _ tag _ => .error (.inLiteralContent tag.name tag.span.start.line)
    else literalText which ns

/-- How an included source is compiled. -/
abbrev Embedder := Env → (path src bindings : Bytes) → State → Outcome Unit

mutual

/-- Compiles the selected nodes in order. Between nodes a cancelled activity stops. -/
def compileNodes (embed : Embedder) (env : Env) (which : Selection) :
    List Node → State → Outcome Unit
  | [], st => (.ok (), st)
  | n :: ns, st =>
    if selects which n then
      if st.canceled then (.error .canceled, st)
      else compileNodes embed env which ns (compileNode embed env n st)
    else compileNodes embed env which ns st

/-- Compiles one node. -/
def compileNode (embed : Embedder) (env : Env) : Node → State → State
  | .text value _, st => st.add env.part value
  | .interpolation expr escaped _, st =>
    if st.out.loader = primaryLoader then st.emit env.part [.emit expr escaped]
    else st.add env.part expr
  | .part owner tag _, st =>
    st.reject env tag .misplacedPart ("@" ++ tag.name ++ " is only valid inside @" ++ owner)
  | .directive tag children, st =>
    match tag.problem with
    | .unknown => st.reject env tag .unknownDirective ("unknown directive @" ++ tag.name)
    | .misplaced =>
      st.reject env tag .misplacedPart ("@" ++ tag.name ++ " is only valid inside @"
        ++ Bytes.join ", @" (env.registry.parentsOf tag.name))
    | .strayTerminator =>
      st.reject env tag .strayTerminator ("@" ++ tag.name ++ " without an open block")
    | .none =>
      match env.registry.lookup tag.name with
      | none => st.reject env tag .unknownDirective ("unknown directive @" ++ tag.name)
      | some d =>
        let ask : Requests :=
          { compile := fun which st => compileNodes embed env which children st
            chain := fun st => compileParts embed env d tag.name children st
            literalText := fun which => literalText which children
            embed := embed env }
        { contained env ask tag d tag.name { st with data := [] } with data := st.data }

/-- Runs the parts of a chain in order. `d` is the definition of the link they are parts of and
`owner` the directive that started the chain. -/
def compileParts (embed : Embedder) (env : Env) (d : Definition) (owner : Bytes) :
    List Node → State → Outcome Unit
  | [], st => (.ok (), st)
  | n :: ns, st =>
    if n.isPart then
      if st.canceled then (.error .canceled, st)
      else compileParts embed env d owner ns (compilePart embed env d owner n st)
    else compileParts embed env d owner ns st

/-- Runs one part of a chain. It shares the data of the chain. -/
def compilePart (embed : Embedder) (env : Env) (d : Definition) (owner : Bytes) :
    Node → State → State
  | .part _ tag children, st =>
    match d.part? tag.name with
    | none =>
      st.reject env tag .misplacedPart
        ("@" ++ tag.name ++ " is not a sub-directive of @" ++ d.name)
    | some p =>
      let ask : Requests :=
        { compile := fun which st => compileNodes embed env which children st
          chain := fun st => compileParts embed env p owner children st
          literalText := fun which => literalText which children
          embed := embed env }
      contained env ask tag p owner st
  | .text _ _, st => st
  | .interpolation _ _ _, st => st
  | .directive _ _, st => st

end

/-- The includes from the first occurrence of a path on. -/
def cycleFrom (path : Bytes) : List Bytes → Option (List Bytes)
  | [] => none
  | p :: ps => if p = path then some (p :: ps) else cycleFrom path ps

/-- Compiles an included source in a scope of its own; `depth` more includes may follow inside. -/
def embedAt : (depth : Nat) → Embedder
  | 0, _, path, _, _, st => (.error (.includeTooDeep maxIncludes path), st)
  | depth + 1, env, path, src, bindings, st =>
    match cycleFrom path env.embeds with
    | some through => (.error (.includeCycle through path), st)
    | none =>
      if path = env.unit.path then (.error (.includesItself path), st)
      else match Markup.parse env.registry env.options path src with
        | .error d => (.error (.within ("failed to parse " ++ path) (.diagnostic d)), st)
        | .ok nodes =>
          let st := { st with deps := Assoc.insert path (Text.Digest.sha256 src) st.deps }
          let st := st.emit env.part [.enter]
          let st := if bindings = [] then st else st.emit env.part [.bind bindings]
          let inner := { env with embeds := env.embeds ++ [path] }
          andThen (compileNodes (embedAt depth) inner .all nodes st) fun _ st =>
            (.ok (), st.emit env.part [.exit .merge []])

/-- The embedder of a template. -/
def embedder : Embedder := embedAt maxIncludes

end Stencil.Compile
