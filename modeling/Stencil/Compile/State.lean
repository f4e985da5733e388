import Stencil.Markup.Parse
import Stencil.Text.Digest

/-!
# The state of a compilation

What a compilation has produced and remembers. `Output` is the part that a failing directive gives
back, down to a mark of how much there was before it; errors, dependencies, labels and what hooks
remember stay.
-/
namespace Stencil.Compile

open Stencil.Directive

/-- The loader whose output is the program. -/
def primaryLoader : Bytes := "render"

/-- The most includes inside one another. -/
def maxIncludes : Nat := 32

/-- Finds the source of a template by its path. -/
abbrev Resolver := Bytes → Except Failure Bytes

/-- The section that instructions go to. -/
inductive Section where
  | pre
  | body
  | post
  deriving DecidableEq, Repr

/-- What was produced so far. -/
structure Output where
  pre : List Instr := []
  body : List Instr := []
  post : List Instr := []
  /-- Text added for other loaders than the primary one. -/
  channels : Assoc Bytes Bytes := []
  /-- The selected loader. -/
  loader : Bytes := primaryLoader

/-- How much was produced at some point, and the loader that was selected there. -/
structure Mark where
  pre : Nat
  body : Nat
  post : Nat
  /-- How much text there was for each other loader. -/
  channels : Assoc Bytes Nat
  loader : Bytes

/-- The state of a compilation. -/
structure State where
  out : Output := {}
  labels : Nat := 0
  /-- The digest of each included template. -/
  deps : Assoc Bytes Bytes := []
  errors : List Diagnostic := []
  /-- What hooks remember for the whole template. -/
  memory : Bindings := []
  /-- What hooks remember for the chain at hand. -/
  data : Bindings := []
  log : List Bytes := []
  canceled : Bool := false

/-- What stays the same while a part of a template is compiled. -/
structure Env where
  registry : Registry
  options : Markup.ParseOptions
  resolver : Option Resolver
  unit : UnitInfo
  /-- Sources that were loaded ahead. -/
  prefetched : Assoc Bytes Bytes
  /-- The section at hand. -/
  part : Section
  /-- The includes that are open, outermost first. -/
  embeds : List Bytes

/-- The template that is being compiled right here. -/
def Env.currentPath (env : Env) : Bytes := env.embeds.getLast?.getD env.unit.path

/-- A step that may fail and changes the state either way. -/
abbrev Outcome (α : Type) := Except Failure α × State

namespace Output

/-- Appends instructions to a section. -/
def append (o : Output) (s : Section) (instrs : List Instr) : Output :=
  match s with
  | .pre => { o with pre := o.pre ++ instrs }
  | .body => { o with body := o.body ++ instrs }
  | .post => { o with post := o.post ++ instrs }

/-- Adds literal text to the selected loader. -/
def add (o : Output) (s : Section) (text : Bytes) : Output :=
  if text = [] then o
  else if o.loader = primaryLoader then o.append s [.literal text]
  else
    { o with channels :=
        Assoc.insert o.loader ((Assoc.get? o.loader o.channels).getD [] ++ text) o.channels }

/-- How much was produced so far. -/
def mark (o : Output) : Mark where
  pre := o.pre.length
  body := o.body.length
  post := o.post.length
  channels := o.channels.map fun c => (c.1, c.2.length)
  loader := o.loader

/-- Cuts off what came after a mark; text for a loader that had none then is dropped. -/
def backTo (o : Output) (m : Mark) : Output where
  pre := o.pre.take m.pre
  body := o.body.take m.body
  post := o.post.take m.post
  channels := o.channels.filterMap fun c =>
    (Assoc.get? c.1 m.channels).map fun length => (c.1, c.2.take length)
  loader := m.loader

end Output

namespace State

def emit (st : State) (s : Section) (instrs : List Instr) : State :=
  { st with out := st.out.append s instrs }

def add (st : State) (s : Section) (text : Bytes) : State := { st with out := st.out.add s text }

def report (st : State) (d : Diagnostic) : State := { st with errors := st.errors ++ [d] }

/-- Records what is wrong with a node, with a comment in its place. -/
def reject (st : State) (env : Env) (tag : Markup.Tag) (kind : DiagnosticKind) (message : Bytes) :
    State :=
  (st.emit env.part [.comment message]).report
    { kind, message, name := tag.name, path := env.currentPath, at? := some tag.span.start }

/-- Gives back what was produced since a mark. -/
def backTo (st : State) (m : Mark) : State := { st with out := st.out.backTo m }

/-- Gives back what a failing node produced since its mark and records its failure. -/
def rollback (st : State) (m : Mark) (env : Env) (tag : Markup.Tag) (cause : Failure) : State :=
  ((st.backTo m).emit env.part [.comment ("error in @" ++ tag.name)]).report
    { kind := .hook, message := "@" ++ tag.name ++ ": " ++ cause.message, name := tag.name,
      path := env.currentPath, at? := some tag.span.start }

end State

end Stencil.Compile
