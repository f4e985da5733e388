import Stencil.Render.Machine

/-!
# Named contexts

Contexts that are kept between runs. Each is a scope, cloned from another one or the root, and sees
the bindings of the contexts it was cloned from.
-/
namespace Stencil.Render

/-- A kept scope and the context it was cloned from. -/
structure Context where
  scope : Scope
  parent : Option Bytes := none

/-- The contexts of one render by name. -/
structure Contexts where
  shared : Shared := {}
  table : Assoc Bytes Context := []

namespace Contexts

/-- The name of the first context. -/
def rootName : Bytes := "root"

/-- Starts with a root context that has bindings. -/
def start (data : Bindings) (session : Session) : Contexts where
  shared := { session }
  table := [(rootName, { scope := { vars := data } })]

/-- A context and those it was cloned from, with their names, the nearest first. -/
def chain (c : Contexts) : (fuel : Nat) → Bytes → List (Bytes × Scope)
  | 0, _ => []
  | fuel + 1, name =>
    match Assoc.get? name c.table with
    | none => []
    | some x =>
      (name, x.scope) ::
        match x.parent with
        | none => []
        | some p => c.chain fuel p

/-- The render state with a context as its innermost scope. -/
def stateAt (c : Contexts) (name : Bytes) : State :=
  match (c.chain c.table.length name).map (·.2) with
  | [] => { top := {}, shared := c.shared }
  | top :: outer => { top, outer, shared := c.shared }

/-- Keeps the scopes of a render state under the names of a chain. -/
def keep (c : Contexts) (names : List Bytes) (m : State) : Contexts where
  shared := m.shared
  table := (names.zip m.scopes).foldl
    (fun table e => table.map fun (n, x) => if n = e.1 then (n, { x with scope := e.2 }) else (n, x))
    c.table

/-- Changes the state that a context is the innermost scope of. -/
def modify (c : Contexts) (name : Bytes) (f : State → State) : Contexts :=
  c.keep ((c.chain c.table.length name).map (·.1)) (f (c.stateAt name))

/-- Clones a context under a new name. -/
def clone (c : Contexts) (name as : Bytes) (data : Bindings) : Contexts :=
  { c with table := Assoc.insert as { scope := { vars := data }, parent := some name } c.table }

/-- Runs a program in a context. -/
def run (c : Contexts) (host : Host) (name : Bytes) (p : Program) : Except Failure Unit × Contexts :=
  let (r, m) := Render.run host p (c.stateAt name)
  (r, c.keep ((c.chain c.table.length name).map (·.1)) m)

end Contexts

end Stencil.Render
