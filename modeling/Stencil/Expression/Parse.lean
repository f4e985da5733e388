import Stencil.Decimal.Read
import Stencil.Expression.Fold
import Stencil.Expression.Token
import Stencil.Wrap

/-!
# Reading of expressions

Operator precedence parsing. Every call consumes a token or is one of a few calls that do not, so
a depth bound of a fixed multiple of the number of tokens is never reached.
-/
namespace Stencil.Expression

open Stencil.Text

/-- The value of digits in a base, when it is an integer of 64 bits. -/
def integerOf? (base : Nat) (cs : List Char) : Option Value :=
  let inBase (c : Char) : Bool := isHexDigit c && hexValue c < base
  if cs = [] ∨ !cs.all inBase then none
  else
    let n := cs.foldl (fun n c => n * base + hexValue c) 0
    if n < wordLimit then some (.int n) else none

/-- The value of a number as written. -/
def numberOf? (s : String) : Option Value :=
  match s.toList.filter (· ≠ '_') with
  | '0' :: 'x' :: cs => integerOf? 16 cs
  | '0' :: 'X' :: cs => integerOf? 16 cs
  | cs =>
    if cs.any fun c => c == '.' || c == 'e' || c == 'E' then
      (Decimal.readFloat? (String.ofList cs : String)).map Value.float
    else match cs with
      | '0' :: c :: ds =>
        if c = 'b' ∨ c = 'B' then integerOf? 2 ds
        else if c = 'o' ∨ c = 'O' then integerOf? 8 ds
        else integerOf? 10 cs
      | _ => integerOf? 10 cs

/-- Drops the expected token. -/
def expect (t : Token) : List Token → Option (List Token)
  | [] => none
  | u :: rest => if u = t then some rest else none

def openParen : Token := .bracket '('

def closeParen : Token := .bracket ')'

def openSquare : Token := .bracket '['

def closeSquare : Token := .bracket ']'

def openCurly : Token := .bracket (Char.ofNat 0x7B)

def closeCurly : Token := .bracket (Char.ofNat 0x7D)

def comma : Token := .operator ","

/-- A call of a function by name. -/
def callOf? (name : String) (args : List Expression) : Option Expression :=
  match Function.ofName? name with
  | some f => if Function.takes f args.length then some (.apply f args) else none
  | none => some (.call (.var name) args)

/-- A name, also one that is spelled like an operator. -/
def memberName? : Token → Option String
  | .name s => some s
  | .operator s => if s ∈ wordOperators then some s else none
  | _ => none

/-- Puts a member on a chain, inside the chain when there is one already. -/
def onChain (e : Expression) (f : Expression → Expression) (isOptional : Bool) : Expression :=
  match e with
  | .chain inner => .chain (f inner)
  | _ => if isOptional then .chain (f e) else f e

abbrev Parsed := Option (Expression × List Token)

/-- The operator that the tokens start with, with `not` before it or not. -/
def operatorAt? (least : Nat) : List Token → Option (Bool × BinaryOp × List Token)
  | .operator "not" :: .operator s :: rest => do
    let op ← binaryOf? s
    if allowsNot op ∧ least ≤ precedence op then some (true, op, rest) else none
  | .operator s :: rest => do
    let op ← binaryOf? s
    if least ≤ precedence op then some (false, op, rest) else none
  | _ => none

mutual

/-- An expression of operators that bind at least as tightly as `least`. -/
def expression (fuel least : Nat) (ts : List Token) : Parsed :=
  match fuel with
  | 0 => none
  | fuel + 1 => do
    let (left, rest) ← operand fuel ts
    let (e, rest) ← operators fuel least none left rest
    if least = 0 then choices fuel e rest else return (e, rest)

/-- The operators after a first operand. `previous` is the operator before; `??` does not mix with
others. -/
def operators (fuel least : Nat) (previous : Option BinaryOp) (left : Expression)
    (ts : List Token) : Parsed :=
  match fuel with
  | 0 => none
  | fuel + 1 =>
    match ts with
    | .operator "|" :: rest =>
      if least = 0 then
        match rest with
        | .name f :: rest => do
          let (args, rest) ← arguments fuel rest
          let e ← callOf? f (left :: args)
          operators fuel least none e rest
        | _ => none
      else some (left, ts)
    | _ =>
      match operatorAt? least ts with
      | none => some (left, ts)
      | some (negated, op, rest) =>
        if previous = some .orElse ∧ op ≠ .orElse then none
        else if isComparison op then do
          let (e, rest) ← comparisons fuel left op none rest
          operators fuel least (some op) e rest
        else do
          let (right, rest) ← expression fuel (rightPrecedence op) rest
          let e := Expression.binary op left right
          let e := if negated then Expression.unary .not e else e
          operators fuel least (some op) e rest

/-- Comparisons in a row hold when each of them does. -/
def comparisons (fuel : Nat) (left : Expression) (op : BinaryOp) (before : Option Expression)
    (ts : List Token) : Parsed :=
  match fuel with
  | 0 => none
  | fuel + 1 => do
    let (right, rest) ← expression fuel (precedence op + 1) ts
    let this := Expression.binary op left right
    let all := match before with
      | some e => Expression.binary .and e this
      | none => this
    match rest with
    | .operator s :: more =>
      match binaryOf? s with
      | some next =>
        if isComparison next then comparisons fuel right next (some all) more
        else return (all, rest)
      | none => return (all, rest)
    | _ => return (all, rest)

/-- Choices between two expressions by a condition. -/
def choices (fuel : Nat) (e : Expression) (ts : List Token) : Parsed :=
  match fuel with
  | 0 => none
  | fuel + 1 =>
    match ts with
    | .operator "?" :: .operator ":" :: rest => do
      let (no, rest) ← expression fuel 0 rest
      choices fuel (.choice e e no) rest
    | .operator "?" :: rest => do
      let (yes, rest) ← expression fuel 0 rest
      let rest ← expect (.operator ":") rest
      let (no, rest) ← expression fuel 0 rest
      choices fuel (.choice e yes no) rest
    | _ => some (e, ts)

/-- An operand with its prefix operators and members. -/
def operand (fuel : Nat) (ts : List Token) : Parsed :=
  match fuel with
  | 0 => none
  | fuel + 1 =>
    match ts with
    | [] => none
    | .operator s :: rest => do
      let (op, least) ← unaryOf? s
      let (e, rest) ← expression fuel least rest
      members fuel (.unary op e) rest
    | .name s :: rest =>
      if s = "true" then some (.literal (.bool true), rest)
      else if s = "false" then some (.literal (.bool false), rest)
      else if s = "nil" then some (.literal .null, rest)
      else match rest with
        | t :: _ =>
          if t = openParen then do
            let (args, rest) ← arguments fuel rest
            members fuel (← callOf? s args) rest
          else members fuel (.var s) rest
        | [] => some (.var s, [])
    | .number s :: rest => (numberOf? s).map fun v => (.literal v, rest)
    | .text s :: rest => members fuel (.literal (.text s)) rest
    | .bracket c :: rest =>
      if c = '(' then do
        let (e, rest) ← expression fuel 0 rest
        members fuel e (← expect closeParen rest)
      else if c = '[' then do
        let (items, rest) ← listItems fuel true rest
        members fuel (.list items) rest
      else if Token.bracket c = openCurly then do
        let (pairs, rest) ← mapPairs fuel true rest
        members fuel (.map pairs) rest
      else none

/-- Members and items of what stands before them. -/
def members (fuel : Nat) (e : Expression) (ts : List Token) : Parsed :=
  match fuel with
  | 0 => none
  | fuel + 1 =>
    match ts with
    | .operator s :: rest =>
      if s = "." ∨ s = "?." then
        let isOptional : Bool := s = "?."
        match rest with
        | t :: more =>
          if isOptional ∧ t = openSquare then item fuel e true more
          else do
            let name ← memberName? t
            let key := Expression.literal (.text (name : String))
            match more with
            | u :: _ =>
              if u = openParen then do
                let (args, rest) ← arguments fuel more
                members fuel (onChain e (fun x => .call (.member x key isOptional) args) isOptional)
                  rest
              else members fuel (onChain e (fun x => .member x key isOptional) isOptional) more
            | [] => some (onChain e (fun x => .member x key isOptional) isOptional, [])
        | [] => none
      else some (e, ts)
    | .bracket c :: rest => if c = '[' then item fuel e false rest else some (e, ts)
    | _ => some (e, ts)

/-- An item after its opening bracket. -/
def item (fuel : Nat) (e : Expression) (isOptional : Bool) (ts : List Token) : Parsed :=
  match fuel with
  | 0 => none
  | fuel + 1 => do
    let (index, rest) ← expression fuel 0 ts
    let rest ← expect closeSquare rest
    let m := Expression.member e index isOptional
    members fuel (if isOptional then .chain m else m) rest

/-- The arguments of a call with their brackets. -/
def arguments (fuel : Nat) (ts : List Token) : Option (List Expression × List Token) :=
  match fuel with
  | 0 => none
  | fuel + 1 => do moreArguments fuel true (← expect openParen ts)

def moreArguments (fuel : Nat) (isFirst : Bool) (ts : List Token) :
    Option (List Expression × List Token) :=
  match fuel with
  | 0 => none
  | fuel + 1 =>
    match ts with
    | [] => none
    | t :: rest =>
      if t = closeParen then some ([], rest)
      else do
        let ts ← if isFirst then some ts else expect comma ts
        let (e, rest) ← expression fuel 0 ts
        let (es, rest) ← moreArguments fuel false rest
        return (e :: es, rest)

/-- The items of a list after its opening bracket. -/
def listItems (fuel : Nat) (isFirst : Bool) (ts : List Token) :
    Option (List Expression × List Token) :=
  match fuel with
  | 0 => none
  | fuel + 1 =>
    match ts with
    | [] => none
    | t :: rest =>
      if t = closeSquare then some ([], rest)
      else do
        let ts ← if isFirst then some ts else expect comma ts
        match ts with
        | [] => none
        | t :: rest =>
          if t = closeSquare then some ([], rest)
          else do
            let (e, rest) ← expression fuel 0 ts
            let (es, rest) ← listItems fuel false rest
            return (e :: es, rest)

/-- The pairs of a map after its opening bracket. -/
def mapPairs (fuel : Nat) (isFirst : Bool) (ts : List Token) :
    Option (List (Expression × Expression) × List Token) :=
  match fuel with
  | 0 => none
  | fuel + 1 =>
    match ts with
    | [] => none
    | t :: rest =>
      if t = closeCurly then some ([], rest)
      else do
        let ts ← if isFirst then some ts else expect comma ts
        match ts with
        | [] => none
        | t :: rest =>
          if t = closeCurly then some ([], rest)
          else do
            let (key, rest) ← mapKey fuel ts
            let rest ← expect (.operator ":") rest
            let (value, rest) ← expression fuel 0 rest
            let (pairs, rest) ← mapPairs fuel false rest
            return ((key, value) :: pairs, rest)

/-- A key: a name, a text or a number as it is written, or an expression in brackets. -/
def mapKey (fuel : Nat) (ts : List Token) : Parsed :=
  match fuel with
  | 0 => none
  | fuel + 1 =>
    match ts with
    | .name s :: rest => some (.literal (.text (s : String)), rest)
    | .number s :: rest => some (.literal (.text (s : String)), rest)
    | .text s :: rest => some (.literal (.text s), rest)
    | .bracket c :: _ => if c = '(' then expression fuel 0 ts else none
    | _ => none

end

/-- Reads an expression. -/
def parse (source : Bytes) : Option Expression := do
  let ts ← tokens source
  let (e, rest) ← expression (16 * ts.length + 16) 0 ts
  if rest = [] then fold e else none

end Stencil.Expression
