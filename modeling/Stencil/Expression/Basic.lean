import Stencil.Value.Basic

/-!
# Expressions

The language of conditions and interpolations: literals, names, collections, operators, members
and a few functions.
-/
namespace Stencil

/-- Operators with one operand. -/
inductive UnaryOp where
  | plus
  | minus
  | not
  deriving DecidableEq, Repr

/-- Operators with two operands. -/
inductive BinaryOp where
  | or
  | and
  | eq
  | ne
  | lt
  | le
  | gt
  | ge
  | memberOf
  | contains
  | startsWith
  | endsWith
  | range
  | add
  | sub
  | mul
  | div
  | mod
  | pow
  /-- The right operand when the left one is absent. -/
  | orElse
  deriving DecidableEq, Repr

/-- The functions. -/
inductive Function where
  | len
  | upper
  | lower
  | trim
  deriving DecidableEq, Repr

/-- An expression. -/
inductive Expression where
  | literal (v : Value)
  | var (name : Bytes)
  | list (items : List Expression)
  | map (pairs : List (Expression × Expression))
  | unary (op : UnaryOp) (operand : Expression)
  | binary (op : BinaryOp) (left right : Expression)
  /-- A member or item; an optional one ends the chain around it when its owner is absent. -/
  | member (owner index : Expression) (isOptional : Bool)
  /-- The extent of the chain that an optional member ends. -/
  | chain (e : Expression)
  | choice (condition yes no : Expression)
  | apply (f : Function) (args : List Expression)
  /-- A call of anything that is no function. -/
  | call (callee : Expression) (args : List Expression)

namespace Expression

def Function.name : Function → String
  | .len => "len"
  | .upper => "upper"
  | .lower => "lower"
  | .trim => "trim"

def Function.ofName? (name : String) : Option Function :=
  [Function.len, Function.upper, Function.lower, Function.trim].find? fun f => Function.name f == name

/-- The numbers of arguments that a function takes. -/
def Function.takes (f : Function) (count : Nat) : Bool :=
  count == 1 || (f == .trim && count == 2)

/-- The operator of a spelling. -/
def binaryOf? (s : String) : Option BinaryOp :=
  match s with
  | "or" | "||" => some .or
  | "and" | "&&" => some .and
  | "==" => some .eq
  | "!=" => some .ne
  | "<" => some .lt
  | "<=" => some .le
  | ">" => some .gt
  | ">=" => some .ge
  | "in" => some .memberOf
  | "contains" => some .contains
  | "startsWith" => some .startsWith
  | "endsWith" => some .endsWith
  | ".." => some .range
  | "+" => some .add
  | "-" => some .sub
  | "*" => some .mul
  | "/" => some .div
  | "%" => some .mod
  | "**" | "^" => some .pow
  | "??" => some .orElse
  | _ => none

/-- How tightly an operator binds. -/
def precedence : BinaryOp → Nat
  | .or => 10
  | .and => 15
  | .eq | .ne | .lt | .le | .gt | .ge | .memberOf | .contains | .startsWith | .endsWith => 20
  | .range => 25
  | .add | .sub => 30
  | .mul | .div | .mod => 60
  | .pow => 100
  | .orElse => 500

/-- The least precedence that the right operand of an operator is read with. Powers group to the
right, all else to the left. -/
def rightPrecedence (op : BinaryOp) : Nat :=
  if op = .pow then precedence op else precedence op + 1

/-- Comparisons of size, which may be chained. -/
def isComparison : BinaryOp → Bool
  | .lt | .le | .gt | .ge => true
  | _ => false

/-- Operators that may have `not` before them. -/
def allowsNot : BinaryOp → Bool
  | .memberOf | .contains | .startsWith | .endsWith => true
  | _ => false

def unaryOf? (s : String) : Option (UnaryOp × Nat) :=
  match s with
  | "not" | "!" => some (.not, 50)
  | "-" => some (.minus, 90)
  | "+" => some (.plus, 90)
  | _ => none

end Expression

end Stencil
