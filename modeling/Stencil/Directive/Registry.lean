import Stencil.Directive.Definition

/-!
# Registries

The directives that a template may use. An exact name wins over patterns; patterns are tried in
the order of registration and must match the whole name. Once something was compiled with a
registry it is sealed.
-/
namespace Stencil.Directive

/-- A definition as it was registered. A pattern may make a definition of its own from a match. -/
structure Registration where
  definition : Definition
  resolve : Option (List Bytes → Option Definition) := none

/-- The registered directives in order. -/
structure Registry where
  entries : List Registration := []
  isSealed : Bool := false

namespace Registry

def definitions (r : Registry) : List Definition := r.entries.map (·.definition)

/-- The definition with an exact name. -/
def named? (r : Registry) (name : Bytes) : Option Definition :=
  r.definitions.find? fun d =>
    match d.matching with
    | .exact => d.name == name
    | .pattern _ => false

/-- The definition that a pattern entry gives for a name. -/
def Registration.matched? (e : Registration) (name : Bytes) : Option Definition :=
  match e.definition.matching with
  | .pattern (some p) =>
    match p.wholeMatch name with
    | some groups =>
      match e.resolve with
      | some f => f groups
      | none => some e.definition
    | none => none
  | _ => none

/-- The definition for a name. -/
def lookup (r : Registry) (name : Bytes) : Option Definition :=
  match r.named? name with
  | some d => some d
  | none => r.entries.findSome? fun e => Registration.matched? e name

/-- The names of the directives that have a part with this name, in order. -/
def parentsOf (r : Registry) (name : Bytes) : List Bytes :=
  ((r.definitions.flatMap Definition.partNames).filter fun e => e.1 == name).map (·.2)

def isPart (r : Registry) (name : Bytes) : Bool := r.parentsOf name ≠ []

/-- Why a definition cannot be registered. -/
def refusal (r : Registry) (d : Definition) : Option Failure :=
  if d.name = [] then some (.refused "directive definition needs a name")
  else if d.name = terminator then some (.refused (Text.quoted terminator ++ " is reserved"))
  else match d.matching with
    | .pattern none =>
      some (.refused ("pattern directive " ++ Text.quoted d.name ++ " has no pattern"))
    | .pattern (some _) => none
    | .exact =>
      if (r.named? d.name).isSome then
        some (.refused ("directive " ++ Text.quoted d.name ++ " already registered"))
      else none

/-- Adds definitions in order up to the first that is refused; a missing one is refused too. -/
def registerAll (r : Registry) : List (Option Registration) → Registry × Option Failure
  | [] => (r, none)
  | none :: _ => (r, some (.refused "directive definition needs a name"))
  | some e :: rest =>
    match r.refusal e.definition with
    | some f => (r, some f)
    | none => registerAll { r with entries := r.entries ++ [e] } rest

/-- Registers definitions, unless the registry is sealed. -/
def register (r : Registry) (es : List (Option Registration)) : Registry × Option Failure :=
  if r.isSealed then (r, some .registrySealed) else r.registerAll es

def close (r : Registry) : Registry := { r with isSealed := true }

end Registry

end Stencil.Directive
