import Stencil.Compile.Resolver
import Stencil.Compile.Template
import Stencil.Render.Machine

/-!
# The engine

An engine compiles and renders templates. Templates by path go through its loader; a text given
directly is compiled for each render.
-/
namespace Stencil

open Stencil.Directive

/-- An engine with what its activities have left behind. -/
structure Engine where
  registry : Registry
  resolver : Compile.Resolver
  options : Compile.Options := {}
  evaluator : Render.Evaluator := Render.expressions
  maxDepth : Int := 32
  /-- The most steps of a program. -/
  stepLimit : Nat := Render.manySteps
  loader : Loader := {}

namespace Engine

/-- The options of the compiler, with the engine's templates for includes. -/
def compileOptions (e : Engine) : Compile.Options := { e.options with resolver := some e.resolver }

/-- The program of a compiled template; one with errors has none. -/
def programOf (t : Compile.Template) : Except Failure Program :=
  if t.errors = [] then t.program.mapError Failure.link else .error (.diagnostics t.errors)

/-- How the loader compiles a template. -/
def compileStep (e : Engine) : CompileStep := fun path canceled =>
  if canceled then { program := .error .canceled, canceled }
  else match e.resolver path with
    | .error f => { program := .error f, canceled }
    | .ok src =>
      let c := Compile.compileSource e.registry e.compileOptions path canceled src
      { program := c.result.bind programOf, canceled := c.canceled, seals := c.seals }

def host (e : Engine) : Render.Host where
  evaluator := some e.evaluator
  compile := some e.compileStep
  maxDepth := e.maxDepth
  stepLimit := e.stepLimit

/-- The session of a new activity. -/
def session (e : Engine) (canceled : Bool) : Session :=
  { loader := e.loader, canceled, isSealed := e.registry.isSealed }

/-- The engine after an activity. -/
def after (e : Engine) (s : Session) : Engine :=
  { e with loader := s.loader, registry := { e.registry with isSealed := s.isSealed } }

/-- Loads the template at a path. -/
def load (e : Engine) (path : Bytes) (canceled : Bool) : Except Failure Program × Engine :=
  let (r, s) := (e.session canceled).load e.compileStep path
  (r, e.after s)

/-- Runs a program with data; the output, or why there is none. -/
def runProgram (e : Engine) (name : Bytes) (p : Program) (data : Bindings) (s : Session) :
    Except Failure Bytes × Engine :=
  let (r, m) := Render.run e.host p { top := { vars := data }, shared := { session := s } }
  let e := e.after m.shared.session
  match r with
  | .error f => (.error (.within ("failed to render " ++ name) f), e)
  | .ok _ => (.ok m.top.out, e)

/-- Renders the template at a path. -/
def render (e : Engine) (path : Bytes) (data : Bindings) (canceled : Bool) :
    Except Failure Bytes × Engine :=
  match (e.session canceled).load e.compileStep path with
  | (.error f, s) => (.error f, e.after s)
  | (.ok p, s) => e.runProgram path p data s

/-- Compiles and renders a text. Errors of directives come beside the output of all the rest. -/
def renderText (e : Engine) (name src : Bytes) (data : Bindings) (canceled : Bool) :
    Bytes × Option Failure × Engine :=
  let c := Compile.compileSource e.registry e.compileOptions name canceled src
  let s : Session :=
    { loader := e.loader, canceled := c.canceled, isSealed := e.registry.isSealed || c.seals }
  match c.result with
  | .error f => ([], some f, e.after s)
  | .ok t =>
    match t.program with
    | .error f => ([], some (.link f), e.after s)
    | .ok p =>
      match e.runProgram name p data s with
      | (.error f, e) => ([], some f, e)
      | (.ok out, e) => (out, if t.errors = [] then none else some (.diagnostics t.errors), e)

/-- Drops the kept program of a path, as when its template has changed. -/
def invalidate (e : Engine) (path : Bytes) : Engine := { e with loader := e.loader.invalidate path }

def reset (e : Engine) : Engine := { e with loader := e.loader.reset }

/-- Registers a directive. -/
def register (e : Engine) (d : Registration) : Engine × Option Failure :=
  let (r, f) := e.registry.register [some d]
  ({ e with registry := r }, f)

end Engine

end Stencil
