import Stencil.Argument.Scan
import Stencil.Argument.Schema
import Stencil.Value.Display
import Stencil.Yaml.Decode

/-!
# Argument lists

An argument list read against the parameters it is meant for. Values are read on demand: the same
argument can be taken as a text, a number, a truth value, or a literal.
-/
namespace Stencil.Argument

/-- Why arguments do not fit their parameters. -/
inductive ReadError where
  | scan (e : ScanError)
  | tooMany (given most : Nat)
  | missing (param : Bytes)
  | unknown (param : Bytes)
  | fallbackNotNumber (param : Bytes) (fallback : Value)
  | notNumber (param text : Bytes)
  | notBoolean (param text : Bytes)
  | notString (text : Bytes)
  | badLiteral (text : Bytes)
  | notObject (param type : Bytes)
  | notArray (param type : Bytes)

def ReadError.message : ReadError → Bytes
  | .scan e => e.message
  | .tooMany given most =>
    "too many arguments: got " ++ Bytes.ofNat given ++ ", want at most " ++ Bytes.ofNat most
  | .missing p => "missing required argument " ++ Text.quoted p
  | .unknown p => "unknown parameter " ++ Text.quoted p
  | .fallbackNotNumber p v =>
    "parameter " ++ Text.quoted p ++ ": default " ++ v.display ++ " is not a number"
  | .notNumber p s => "parameter " ++ Text.quoted p ++ ": " ++ s ++ " is not a number"
  | .notBoolean p s => "parameter " ++ Text.quoted p ++ ": " ++ s ++ " is not a boolean"
  | .notString s => "not a string literal: " ++ s
  | .badLiteral s => "invalid literal " ++ s ++ ": <yaml>"
  | .notObject p t => "parameter " ++ Text.quoted p ++ ": expected an object, got " ++ t
  | .notArray p t => "parameter " ++ Text.quoted p ++ ": expected an array, got " ++ t

/-- Arguments bound to parameters. -/
structure Arguments where
  /-- The whole list as written, without the blanks around it. -/
  raw : Bytes
  args : List Bytes
  schema : Schema

/-- A required parameter without an argument; an empty argument is none. -/
def firstMissing : Schema → List Bytes → Option Param
  | [], _ => none
  | p :: ps, args =>
    if p.required ∧ args.headD [] = [] then some p else firstMissing ps (args.drop 1)

/-- Splits an argument list and binds it to parameters. -/
def read (raw : Bytes) (schema : Schema) : Except ReadError Arguments := do
  let args ← (split raw).mapError ReadError.scan
  if schema ≠ [] then
    if schema.length < args.length then throw (.tooMany args.length schema.length)
    if let some p := firstMissing schema args then throw (.missing p.name)
  return ⟨Text.trim raw, args, schema⟩

/-- The content of a string literal. -/
def unquote (raw : Bytes) : Except ReadError Bytes :=
  match unquote? raw with
  | some s => .ok s
  | none => .error (.notString raw)

/-- The value of a literal such as an object, a list, a text or a number. -/
def literal (raw : Bytes) : Except ReadError Value :=
  match Yaml.decode raw with
  | some v => .ok v
  | none => .error (.badLiteral raw)

namespace Arguments

/-- The argument at a position, empty when there is none. -/
def arg (a : Arguments) (i : Nat) : Bytes := a.args[i]?.getD []

/-- The position of a parameter. -/
def indexOf? (a : Arguments) (name : Bytes) : Option Nat := a.schema.findIdx? fun p => p.name == name

/-- The argument of a parameter as written; an empty one counts as not given. -/
def raw? (a : Arguments) (name : Bytes) : Option Bytes :=
  match a.indexOf? name with
  | some i => if a.arg i = [] then none else some (a.arg i)
  | none => none

/-- The argument of a parameter as written, empty when not given. -/
def rawD (a : Arguments) (name : Bytes) : Bytes := (a.raw? name).getD []

def has (a : Arguments) (name : Bytes) : Bool := (a.raw? name).isSome

def param (a : Arguments) (name : Bytes) : Except ReadError Param :=
  match a.schema.find? fun p => p.name == name with
  | some p => .ok p
  | none => .error (.unknown name)

/-- The argument as a text: the content of a string literal, anything else as written. -/
def string (a : Arguments) (name : Bytes) : Except ReadError Bytes := do
  let p ← a.param name
  match a.raw? name with
  | none =>
    match p.fallback with
    | .null => return []
    | v => return v.display
  | some raw => return (unquote? raw).getD raw

/-- The argument as a number. -/
def number (a : Arguments) (name : Bytes) : Except ReadError Float := do
  let p ← a.param name
  match a.raw? name with
  | none =>
    match p.fallback with
    | .null => return 0
    | .int n => return Decimal.floatOfInt n
    | .float x => return x
    | v => throw (.fallbackNotNumber name v)
  | some raw =>
    match Decimal.readFloat? raw with
    | some x => return x
    | none => throw (.notNumber name raw)

/-- The argument as a truth value. -/
def bool (a : Arguments) (name : Bytes) : Except ReadError Bool := do
  let p ← a.param name
  match a.raw? name with
  | none =>
    match p.fallback with
    | .bool b => return b
    | _ => return false
  | some raw =>
    if raw = "true" then return true
    else if raw = "false" then return false
    else throw (.notBoolean name raw)

/-- The argument as the value of a literal. -/
def value (a : Arguments) (name : Bytes) : Except ReadError Value := do
  let p ← a.param name
  match a.raw? name with
  | none => return p.fallback
  | some raw => literal raw

/-- The argument as an object; none when the value is absent. -/
def object (a : Arguments) (name : Bytes) : Except ReadError (Option Bindings) := do
  match ← a.value name with
  | .null => return none
  | .record fields => return some fields
  | v => throw (.notObject name v.typeName)

/-- The argument as a list; none when the value is absent. -/
def array (a : Arguments) (name : Bytes) : Except ReadError (Option (List Value)) := do
  match ← a.value name with
  | .null => return none
  | .list .any items => return some items
  | v => throw (.notArray name v.typeName)

end Arguments

end Stencil.Argument
