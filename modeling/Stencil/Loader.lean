import Stencil.Failure

/-!
# Loading of templates

A loader gives the program of a template by its path. Under the policy `always` a program is
compiled once and kept until it is invalidated; under `never` every load compiles it again.
-/
namespace Stencil

/-- Whether compiled templates are kept. -/
inductive Policy where
  | always
  | never
  deriving DecidableEq, Repr

def Policy.name : Policy → Bytes
  | .always => "always"
  | .never => "never"

/-- The policy of a name; no name means to keep templates. -/
def Policy.ofName (name : Bytes) : Except Failure Policy :=
  if name = [] ∨ name = "always" then .ok .always
  else if name = "never" then .ok .never
  else .error (.refused ("unknown cache policy " ++ Text.quoted name))

/-- What came of compiling a template for a loader. -/
structure Built where
  program : Except Failure Program
  /-- The activity is cancelled afterwards. -/
  canceled : Bool
  /-- Code was generated, which seals the registry. -/
  seals : Bool := false

/-- How a loader compiles the template at a path, in an activity that may be cancelled. -/
abbrev CompileStep := (path : Bytes) → (canceled : Bool) → Built

/-- A loader: the kept programs, and how often a program was found, not found and compiled. -/
structure Loader where
  policy : Policy := .always
  programs : Assoc Bytes Program := []
  hits : Nat := 0
  misses : Nat := 0
  compiles : Nat := 0

namespace Loader

/-- The program that a load of a path would find. -/
def kept? (l : Loader) (path : Bytes) : Option Program :=
  match l.policy with
  | .always => Assoc.get? path l.programs
  | .never => none

/-- Counts a compiled program and keeps it, if the policy says so. -/
def store (l : Loader) (path : Bytes) (p : Program) : Loader :=
  match l.policy with
  | .always => { l with compiles := l.compiles + 1, programs := Assoc.insert path p l.programs }
  | .never => { l with compiles := l.compiles + 1 }

/-- Drops the program of a path. -/
def invalidate (l : Loader) (path : Bytes) : Loader := { l with programs := Assoc.erase path l.programs }

/-- Drops every program and starts counting anew. -/
def reset (l : Loader) : Loader := { policy := l.policy }

end Loader

/-- What an activity leaves behind apart from its result. -/
structure Session where
  loader : Loader := {}
  canceled : Bool := false
  isSealed : Bool := false

/-- Loads the template at a path. -/
def Session.load (s : Session) (compile : CompileStep) (path : Bytes) :
    Except Failure Program × Session :=
  match s.loader.kept? path with
  | some p => (.ok p, { s with loader := { s.loader with hits := s.loader.hits + 1 } })
  | none =>
    let missed := { s.loader with misses := s.loader.misses + 1 }
    let built := compile path s.canceled
    let after : Session :=
      { loader := missed, canceled := built.canceled, isSealed := s.isSealed || built.seals }
    match built.program with
    | .error e => (.error (.within ("failed to load " ++ path) e), after)
    | .ok p => (.ok p, { after with loader := missed.store path p })

end Stencil
