import Stencil.Compile.Run

/-!
# Compiled templates

Compiling a template runs the start hooks of all directives, the nodes, and the end hooks. Errors
of directives are collected; only a cancelled activity and a template that cannot be read give no
result.
-/
namespace Stencil.Compile

open Stencil.Directive
open Stencil.Markup (Node Tag)

/-- How templates are compiled. -/
structure Options where
  resolver : Option Resolver := none
  parse : Markup.ParseOptions := {}
  /-- Above one, the sources of includes are loaded ahead. -/
  concurrency : Int := 0

/-- A text for the options that change what is compiled. -/
def Options.fingerprint (o : Options) : Bytes := o.parse.fingerprint

/-- The result of compiling one template. -/
structure Template where
  path : Bytes
  pre : List Instr
  body : List Instr
  post : List Instr
  channels : Assoc Bytes Bytes
  deps : Assoc Bytes Bytes
  errors : List Diagnostic

/-- Joins literals that follow one another. -/
def mergeLiterals : List Instr → List Instr
  | [] => []
  | i :: rest =>
    match mergeLiterals rest with
    | [] => [i]
    | j :: more =>
      if i.op = .text ∧ j.op = .text then { i with text := i.text ++ j.text } :: more
      else i :: j :: more

/-- The instructions of a template in order. -/
def Template.instrs (t : Template) : List Instr := t.pre ++ t.body ++ t.post

/-- The program of a template. -/
def Template.program (t : Template) : Except LinkError Program :=
  Program.link t.path (mergeLiterals t.instrs)

/-- What came of compiling a template, with the log of its hooks. -/
structure Compilation where
  result : Except Failure Template
  log : List Bytes := []
  /-- A hook cancelled the activity, or it was cancelled before. -/
  canceled : Bool := false
  /-- Code was generated, which seals the registry. -/
  seals : Bool := false

/-- The path of a directive's use that may be loaded ahead: a string literal in the parameter that
its definition names. -/
def prefetchPath (r : Registry) (tag : Tag) : Option Bytes := do
  if tag.problem ≠ .none then none
  let d ← r.lookup tag.name
  if d.prefetch = [] then none
  let args ← (Argument.read tag.expr d.params).toOption
  let raw ← args.raw? d.prefetch
  if Argument.isLiteral raw then
    let path ← (args.string d.prefetch).toOption
    if path = [] then none else some path
  else none

mutual

/-- The heads of directives, without those of parts, in document order. -/
def directiveTags : Node → List Tag
  | .text _ _ => []
  | .interpolation _ _ _ => []
  | .directive t cs => t :: directiveTagsList cs
  | .part _ _ cs => directiveTagsList cs

def directiveTagsList : List Node → List Tag
  | [] => []
  | n :: ns => directiveTags n ++ directiveTagsList ns

end

/-- Loads sources ahead. A path that is not found is left for its directive to report. -/
def prefetch (resolver : Resolver) (paths : List Bytes) : Assoc Bytes Bytes :=
  paths.foldl
    (fun found path =>
      match resolver path with
      | .ok src => Assoc.insert path src found
      | .error _ => found) []

/-- The requests of a hook at the start or end of a template, where there is no node. -/
def fileRequests (env : Env) : Requests where
  compile := fun _ st => (.ok (), st)
  chain := fun st => (.ok (), st)
  literalText := fun _ => .ok []
  embed := embedder env

/-- Runs a hook at the start or end of a template. A failure is contained. -/
def runFileHook (env : Env) (d : Definition) (hook : Option (UnitInfo → Script Unit)) (st : State) :
    State :=
  match hook with
  | none => st
  | some f =>
    match runScript env (fileRequests env) (f env.unit) st with
    | (.ok _, after) => after
    | (.error e, after) =>
      (after.backTo st.out.mark).report
        { kind := .hook, name := d.name, path := env.unit.path,
          message := "@" ++ d.name ++ " file hook: " ++ e.message }

/-- What hooks see of a template. -/
def unitInfo (path : Bytes) (nodes : List Node) : UnitInfo where
  path
  used := ((Node.tagsList nodes).filter fun t => t.problem == .none).map (·.name)

/-- Compiles a tree. -/
def generate (r : Registry) (options : Options) (path : Bytes) (canceled : Bool)
    (nodes : List Node) : Compilation :=
  let ahead : List Bytes :=
    if 1 < options.concurrency ∧ options.resolver.isSome then
      (directiveTagsList nodes).filterMap (prefetchPath r)
    else []
  if canceled ∧ ahead ≠ [] then { result := .error .canceled, canceled, seals := true }
  else
    let prefetched := match options.resolver with
      | some resolver => prefetch resolver ahead
      | none => []
    let env : Env :=
      { registry := r, options := options.parse, resolver := options.resolver,
        unit := unitInfo path nodes, prefetched, part := .body, embeds := [] }
    let st : State := { canceled }
    let st := r.definitions.foldl
      (fun st d => runFileHook { env with part := .pre } d d.onInitFile st) st
    match compileNodes embedder env .all nodes st with
    | (.error e, st) => { result := .error e, log := st.log, canceled := st.canceled, seals := true }
    | (.ok _, st) =>
      let st := r.definitions.foldl
        (fun st d => runFileHook { env with part := .post } d d.onEndFile st) st
      { result := .ok
          { path, pre := st.out.pre, body := st.out.body, post := st.out.post,
            channels := st.out.channels, deps := st.deps, errors := st.errors }
        log := st.log, canceled := st.canceled, seals := true }

/-- Reads and compiles a source. -/
def compileSource (r : Registry) (options : Options) (path : Bytes) (canceled : Bool) (src : Bytes) :
    Compilation :=
  match Markup.parse r options.parse path src with
  | .error d => { result := .error (.diagnostic d), canceled }
  | .ok nodes => generate r options path canceled nodes

end Stencil.Compile
