import Stencil.Value.Basic

/-!
# Parameters

What a directive declares about its arguments. Arguments are bound to parameters by position.
-/
namespace Stencil.Argument

/-- The declared type of a parameter. -/
inductive ParamKind where
  | any
  | string
  | number
  | boolean
  | object
  | array
  /-- An expression for render time, kept as it is written. -/
  | code
  deriving DecidableEq, Repr

def ParamKind.all : List ParamKind := [.any, .string, .number, .boolean, .object, .array, .code]

def ParamKind.name : ParamKind → Bytes
  | .any => "any"
  | .string => "string"
  | .number => "number"
  | .boolean => "boolean"
  | .object => "object"
  | .array => "array"
  | .code => "code"

def ParamKind.ofName? (name : Bytes) : Option ParamKind := ParamKind.all.find? fun k => k.name == name

/-- One positional parameter. -/
structure Param where
  name : Bytes
  kind : ParamKind := .any
  required : Bool := false
  /-- The value when no argument is given; an absent value stands for none. -/
  fallback : Value := .null
  description : Bytes := []

/-- The parameters in order. No parameters at all means that anything is accepted. -/
abbrev Schema := List Param

end Stencil.Argument
