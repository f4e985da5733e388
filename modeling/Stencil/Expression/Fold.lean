import Stencil.Expression.Arithmetic
import Stencil.Expression.Basic

/-!
# Settled parts of expressions

What an expression says without any bindings is settled when it is read: operators on numbers,
texts and truth values as they are written, and lists of them. An operand of `and` or `or` that is
settled decides, so what stands beside it is not looked at, on whichever side it stands.
-/
namespace Stencil.Expression

open Stencil.Value

/-- A text as written. -/
def writtenText? : Expression → Option Bytes
  | .literal (.text s) => some s
  | _ => none

/-- A number, a text or a truth value as written. -/
def written? : Expression → Option Value
  | .literal (.int n) => some (.int n)
  | .literal (.float x) => some (.float x)
  | .literal (.text s) => some (.text s)
  | .literal (.bool b) => some (.bool b)
  | _ => none

/-- The truth value of an operand, when it is settled. -/
def truth? : Expression → Option Bool
  | .literal (.bool b) => some b
  | _ => none

/-- The number of an operand, when it is settled and whole. -/
def whole? : Expression → Option Int
  | .literal (.int n) => some n
  | _ => none

/-- An expression whose value is a whole number in any case. -/
def isWhole : Expression → Bool
  | .literal (.int _) => true
  | .apply .len _ => true
  | .unary .plus e => isWhole e
  | .unary .minus e => isWhole e
  | .binary .add a b => isWhole a && isWhole b
  | .binary .sub a b => isWhole a && isWhole b
  | .binary .mul a b => isWhole a && isWhole b
  | .binary .mod a b => isWhole a && isWhole b
  | .choice _ a b => isWhole a && isWhole b
  | _ => false

/-- An operator on two settled operands, when it is settled too. -/
def settledValue? (op : BinaryOp) (a b : Value) : Option Value :=
  match op with
  | .add => add? a b
  | .sub => sub? a b
  | .mul => mul? a b
  | .div => div? a b
  | .mod => mod? a b
  | .pow => pow? a b
  | .eq =>
    match a, b with
    | .int m, .int n => some (.bool (m == n))
    | .text s, .text t => some (.bool (s == t))
    | .bool x, .bool y => some (.bool (x == y))
    | _, _ => none
  | _ => none

/-- `and` or `or`, where `neutral` is the operand that leaves the other one as it is. -/
def foldLogic (op : BinaryOp) (neutral : Bool) (a b : Expression) : Expression :=
  if truth? a = some neutral then b
  else if truth? b = some neutral then a
  else if truth? a = some (!neutral) ∨ truth? b = some (!neutral) then .literal (.bool (!neutral))
  else .binary op a b

/-- The test of a whole number for membership in a range as written is two comparisons. -/
def foldMembership (a b : Expression) : Expression :=
  match b with
  | .binary .range low high =>
    if isWhole a && (whole? low).isSome && (whole? high).isSome then
      .binary .and (.binary .ge a low) (.binary .le a high)
    else .binary .memberOf a b
  | _ => .binary .memberOf a b

/-- An operator on operands that are folded already. There is none for a remainder by a zero. -/
def foldBinary (op : BinaryOp) (a b : Expression) : Option Expression :=
  match op with
  | .and => some (foldLogic .and true a b)
  | .or => some (foldLogic .or false a b)
  | .memberOf => some (foldMembership a b)
  | op =>
    if op = .mod ∧ (whole? a).isSome ∧ whole? b = some 0 then none
    else
      match written? a, written? b with
      | some x, some y =>
        match settledValue? op x y with
        | some v => some (.literal v)
        | none => some (.binary op a b)
      | _, _ => some (.binary op a b)

def foldUnary (op : UnaryOp) (e : Expression) : Expression :=
  match op, written? e with
  | .minus, some v => ((negate? v).map Expression.literal).getD (.unary op e)
  | .plus, some (.int n) => .literal (.int n)
  | .plus, some (.float x) => .literal (.float x)
  | .not, some (.bool b) => .literal (.bool (!b))
  | _, _ => .unary op e

/-- A list of settled items is settled, unless it is empty. -/
def foldItems (items : List Expression) : Expression :=
  match items, items.mapM written? with
  | _ :: _, some values => .literal (.items values)
  | _, _ => .list items

/-- The test for an item of a list of texts as written is the test for a key: it asks for a text,
and an absent value stands for the empty one. -/
def keysOf? (op : BinaryOp) (right : Expression) : Option Expression :=
  match op, right with
  | .memberOf, .list (item :: items) =>
    ((item :: items).mapM writtenText?).map fun texts =>
      .literal (.record (texts.eraseDups.map fun t => (t, .null)))
  | _, _ => none

mutual

/-- The expression with all that is settled worked out; none when a remainder by zero is settled. -/
def fold : Expression → Option Expression
  | .literal v => some (.literal v)
  | .var name => some (.var name)
  | .list items => (foldList items).map foldItems
  | .map pairs => (foldPairs pairs).map .map
  | .unary op e => (fold e).map (foldUnary op)
  | .binary op a b => do
    let left ← fold a
    match keysOf? op b with
    | some keys => return .binary op left keys
    | none => foldBinary op left (← fold b)
  | .member owner index isOptional => do return .member (← fold owner) (← fold index) isOptional
  | .chain e => (fold e).map .chain
  | .choice c yes no => do return .choice (← fold c) (← fold yes) (← fold no)
  | .apply f args => (foldList args).map (.apply f)
  | .call callee args => do return .call (← fold callee) (← foldList args)

def foldList : List Expression → Option (List Expression)
  | [] => some []
  | e :: es => do return (← fold e) :: (← foldList es)

def foldPairs : List (Expression × Expression) → Option (List (Expression × Expression))
  | [] => some []
  | (k, v) :: rest => do return (← fold k, ← fold v) :: (← foldPairs rest)

end

end Stencil.Expression
