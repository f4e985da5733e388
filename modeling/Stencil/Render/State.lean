import Stencil.Expression.Eval
import Stencil.Expression.Parse
import Stencil.Loader
import Stencil.Text.Escape
import Stencil.Value.Truth

/-!
# The state of a render

A render has a stack of scopes. Each scope has bindings and output of its own; names are looked up
from the innermost scope outwards. Stacks, sections and the fallbacks of placeholders belong to
the whole render.
-/
namespace Stencil.Render

/-- The byte that delimits a placeholder in output. -/
def mark : UInt8 := 0x1A

/-- The most passes over output to fill in placeholders. -/
def maxPasses : Nat := 8

/-- How expressions are evaluated, in an activity that may be cancelled. -/
abbrev Evaluator := (canceled : Bool) → (expr : Bytes) → Expression.Lookup → Except Failure Value

/-- The evaluator of the expression language. -/
def expressions : Evaluator := fun canceled expr lookup =>
  if canceled then .error .canceled
  else match Expression.parse expr with
    | none => .error (.invalidExpression expr)
    | some e =>
      match e.eval lookup with
      | .ok v => .ok v
      | .error _ => .error (.evaluation expr)

/-- The evaluator that only knows names. -/
def names : Evaluator := fun _ expr lookup =>
  match lookup expr with
  | some v => .ok v
  | none => .error (.undefinedVariable expr)

/-- More steps than a render takes in practice. -/
def manySteps : Nat := 1000000000000

/-- What a render is given from outside. -/
structure Host where
  evaluator : Option Evaluator := some expressions
  /-- How templates are compiled, when there is a loader. -/
  compile : Option CompileStep := none
  /-- The most templates rendered inside one another. -/
  maxDepth : Int := 32
  /-- The most steps of a program. -/
  stepLimit : Nat := manySteps

/-- One scope. -/
structure Scope where
  vars : Bindings := []
  out : Bytes := []
  /-- The captured slots. -/
  slots : Assoc Bytes Bytes := []
  /-- The scope collects the body of a component. -/
  isComponent : Bool := false

/-- What all scopes of a render share. -/
structure Shared where
  pushed : Assoc Bytes (List Bytes) := []
  sections : Assoc Bytes Bytes := []
  /-- What placeholders fall back to. -/
  fallbacks : Assoc Bytes Bytes := []
  /-- How many templates are being rendered inside one another. -/
  depth : Nat := 0
  session : Session := {}

/-- The state: the innermost scope, those around it, and what they share. -/
structure State where
  top : Scope
  outer : List Scope := []
  shared : Shared := {}

namespace Scope

def write (s : Scope) (text : Bytes) : Scope := { s with out := s.out ++ text }

def set (s : Scope) (name : Bytes) (v : Value) : Scope :=
  { s with vars := Assoc.insert name v s.vars }

def setSlot (s : Scope) (name content : Bytes) : Scope :=
  { s with slots := Assoc.insert name content s.slots }

/-- Looks a name up from the innermost scope outwards. -/
def lookup (name : Bytes) : List Scope → Option Value
  | [] => none
  | s :: rest =>
    match Assoc.get? name s.vars with
    | some v => some v
    | none => lookup name rest

/-- All bindings that can be seen, inner ones over outer ones. -/
def visible : List Scope → Bindings
  | [] => []
  | s :: rest => Assoc.insertAll (visible rest) s.vars

/-- Sets a slot of the nearest component body. -/
def captureSlot (name content : Bytes) : List Scope → Option (List Scope)
  | [] => none
  | s :: rest =>
    if s.isComponent then some (s.setSlot name content :: rest)
    else (captureSlot name content rest).map (s :: ·)

end Scope

namespace Shared

def push (sh : Shared) (name content : Bytes) : Shared :=
  { sh with pushed := Assoc.insert name ((Assoc.get? name sh.pushed).getD [] ++ [content]) sh.pushed }

def define (sh : Shared) (name content : Bytes) : Shared :=
  { sh with sections := Assoc.insert name content sh.sections }

/-- Forgets stacks, sections and fallbacks. -/
def clear (sh : Shared) : Shared := { sh with pushed := [], sections := [], fallbacks := [] }

/-- The kind and the name inside a placeholder. -/
def kindAndName (token : Bytes) : Bytes × Bytes := (Bytes.cut ":" token).getD (token, [])

/-- What stands for a placeholder: a stack, a section, or else its fallback. -/
def expand (sh : Shared) (token : Bytes) : Bytes :=
  let (kind, name) := kindAndName token
  let found : Option Bytes :=
    if kind = "stack" then (Assoc.get? name sh.pushed).map List.flatten
    else if kind = "section" then Assoc.get? name sh.sections
    else none
  found.getD ((Assoc.get? token sh.fallbacks).getD [])

/-- Replaces the placeholders in a text once. `open?` is what was read of a placeholder, last byte
first; one without an end stays as it is. -/
def fillOnce (sh : Shared) : (open? : Option Bytes) → Bytes → Bytes
  | none, [] => []
  | some token, [] => mark :: token.reverse
  | none, c :: cs => if c = mark then fillOnce sh (some []) cs else c :: fillOnce sh none cs
  | some token, c :: cs =>
    if c = mark then sh.expand token.reverse ++ fillOnce sh none cs
    else fillOnce sh (some (c :: token)) cs

/-- Replaces placeholders, also those in what was put in their place, up to a number of passes. -/
def fill (sh : Shared) : (passes : Nat) → Bytes → Bytes
  | 0, text => text
  | passes + 1, text => if mark ∈ text then fill sh passes (sh.fillOnce none text) else text

end Shared

namespace State

/-- All scopes, the innermost first. -/
def scopes (m : State) : List Scope := m.top :: m.outer

/-- No scope is around the innermost one. -/
def isRoot (m : State) : Bool := m.outer.isEmpty

def lookup (m : State) : Expression.Lookup := fun name => Scope.lookup name m.scopes

def write (m : State) (text : Bytes) : State := { m with top := m.top.write text }

def writeEscaped (m : State) (text : Bytes) : State := m.write (Text.escapeHtml text)

def set (m : State) (name : Bytes) (v : Value) : State := { m with top := m.top.set name v }

def setAll (m : State) (bindings : Bindings) : State :=
  { m with top := { m.top with vars := Assoc.insertAll m.top.vars bindings } }

/-- Opens a scope. -/
def enter (m : State) (s : Scope) : State := { m with top := s, outer := m.top :: m.outer }

/-- Closes the innermost scope, unless it is the only one. -/
def leave (m : State) : State :=
  match m.outer with
  | [] => m
  | s :: rest => { m with top := s, outer := rest }

/-- One more template is being rendered. -/
def deepen (m : State) : State := { m with shared := { m.shared with depth := m.shared.depth + 1 } }

/-- The rendering of a template is over. -/
def rise (m : State) : State := { m with shared := { m.shared with depth := m.shared.depth - 1 } }

/-- Closes several scopes. -/
def leaveAll (m : State) : Nat → State
  | 0 => m
  | n + 1 => m.leave.leaveAll n

/-- Sets a slot of the nearest component body, or of the innermost scope when there is none. -/
def setSlot (m : State) (name content : Bytes) : State :=
  match Scope.captureSlot name content m.scopes with
  | some (s :: rest) => { m with top := s, outer := rest }
  | _ => { m with top := m.top.setSlot name content }

/-- Changes the scope that has `level` scopes around it. -/
def atLevel (m : State) (level : Nat) (f : Scope → Scope) : State :=
  let down := m.outer.length - level
  match down with
  | 0 => { m with top := f m.top }
  | i + 1 => { m with outer := m.outer.modify i f }

/-- Writes a placeholder. -/
def placeholder (m : State) (kind name fallback : Bytes) : State :=
  let token := kind ++ ":" ++ name
  let m :=
    if fallback = [] then m
    else { m with shared := { m.shared with
             fallbacks := Assoc.insert token fallback m.shared.fallbacks } }
  m.write ([mark] ++ token ++ [mark])

/-- Fills in the placeholders, at the root only: inner output is filled in where it ends up. -/
def resolve (m : State) : State :=
  if m.isRoot then { m with top := { m.top with out := m.shared.fill maxPasses m.top.out } } else m

/-- Drops output and slots of the innermost scope; at the root also what the render shares. -/
def clear (m : State) : State :=
  { m with
    top := { m.top with out := [], slots := [] }
    shared := if m.isRoot then m.shared.clear else m.shared }

/-- The value of an expression in the innermost scope. -/
def eval (m : State) (host : Host) (expr : Bytes) : Except Failure Value :=
  match host.evaluator with
  | none => .error .noEvaluator
  | some evaluate => evaluate m.shared.session.canceled expr m.lookup

/-- The bindings that an expression gives. -/
def evalBindings (m : State) (host : Host) (expr : Bytes) : Except Failure Bindings :=
  match m.eval host expr with
  | .error e => .error e
  | .ok v =>
    match v.bindings? with
    | some bindings => .ok bindings
    | none => .error (.notBindings v.typeName)

end State

end Stencil.Render
