import Stencil.Expression.Arithmetic
import Stencil.Expression.Basic
import Stencil.Text.Blank
import Stencil.Text.LetterCase

/-!
# Evaluation of expressions

An expression has a value under bindings of names, or evaluation fails. A name without a binding
is absent. An optional member of an absent owner ends the whole chain it belongs to, and the chain
is absent. The lists and maps that one evaluation makes have a bounded number of items in all.
-/
namespace Stencil.Expression

open Stencil.Value

/-- Why evaluation stops. -/
inductive Stop where
  | failed
  /-- An optional member of an absent owner; the chain around it is absent. -/
  | absent
  deriving DecidableEq, Repr

abbrev Result := Except Stop Value

def ofOption : Option Value → Result
  | some v => .ok v
  | none => .error .failed

def ofBool? : Option Bool → Result
  | some b => .ok (.bool b)
  | none => .error .failed

/-- The bindings that an expression sees. -/
abbrev Lookup := Bytes → Option Value

/-- How many items the lists and maps that an evaluation makes must not reach. -/
def itemLimit : Nat := 1000000

/-- An evaluation, which counts the items it makes. -/
abbrev Evaluation := ExceptT Stop (StateM Nat)

/-- Counts items that are made. -/
def make (count : Nat) : Evaluation Unit := do
  let made ← get
  set (made + count)
  if itemLimit ≤ made + count then throw .failed

/-- An evaluation with a result that is known. -/
def settle (r : Result) : Evaluation Value := ExceptT.mk (pure r)

/-- Whether two expressions stand for one place in the bindings. -/
def samePlace : Expression → Expression → Bool
  | .var a, .var b => a == b
  | .literal a, .literal b => same a b
  | .member a i _, .member b j _ => samePlace a b && samePlace i j
  | .chain a, .chain b => samePlace a b
  | _, _ => false

/-- What operators see of a reference: what it refers to. -/
def target : Value → Value
  | .reference (some n) _ => .int n
  | .reference none _ => .null
  | v => v

/-- The item of a list at an index; negative indices count from the end. -/
def itemAt? (xs : List Value) (i : Int) : Option Value :=
  let i := if i < 0 then i + xs.length else i
  if i < 0 then none else xs[i.toNat]?

/-- A value that can be a key: neither a list that may change its length nor a map. -/
def isKey : Value → Bool
  | .list (.array _) _ => true
  | .list _ _ => false
  | .record _ => false
  | .table _ _ => false
  | _ => true

/-- The value of a key in a map, when the key is of the right type. An absent key stands for the
blank one. -/
def atKey? (index : Value) : Value → Option (Option Value)
  | .record fields =>
    match index with
    | .text name => some (Assoc.get? name fields)
    | .null => some (Assoc.get? ([] : Bytes) fields)
    | _ => none
  | .table .int entries =>
    match index with
    | .int n => some ((entries.find? fun e => same e.1 (.int n)).map (·.2))
    | .null => some ((entries.find? fun e => same e.1 (.int 0)).map (·.2))
    | _ => none
  | .table .any entries =>
    if isKey index then some ((entries.find? fun e => same e.1 index).map (·.2)) else none
  | _ => none

/-- A member or an item of a value. What a map does not hold is absent. -/
def fetch (owner index : Value) : Result :=
  match owner with
  | .list _ xs =>
    match index.index? with
    | some i => ofOption (itemAt? xs i)
    | none => .error .failed
  | .text s =>
    match index.index? with
    | some i => ofOption (itemAt? (s.map fun c => Value.sized .uint8 c.toNat) i)
    | none => .error .failed
  | owner => ofOption ((atKey? index owner).map fun v => v.getD .null)

/-- A list holds an equal item, or a map the key. An item of which `shared` says so has the origin
of the needle. -/
def holds (shared : List Bool) (needle collection : Value) : Result :=
  match collection with
  | .null => .ok (.bool false)
  | .list _ xs => .ok (.bool (xs.zipIdx.any fun x => equal (shared.getD x.2 false) x.1 needle))
  | .unit => isField
  | .named _ => isField
  | .time _ => isField
  | collection => ofBool? ((atKey? needle collection).map Option.isSome)
where
  /-- A value of a type without open fields holds no name, and only names can be asked for. -/
  isField : Result :=
    match needle with
    | .text _ => .ok (.bool false)
    | _ => .error .failed

/-- A test on two texts; an absent value passes none. -/
def textTest (test : Bytes → Bytes → Bool) (a b : Value) : Result :=
  if isAbsent a || isAbsent b then .ok (.bool false)
  else match a, b with
    | .text s, .text t => .ok (.bool (test s t))
    | _, _ => .error .failed

/-- The whole numbers from one to another; none when there are too many to count. -/
def rangeOf (a b : Value) : Evaluation Value :=
  match a.index?, b.index? with
  | some low, some high => do
    let count := (wrap (high - low + 1)).toNat
    make count
    return .list .ints ((List.range count).map fun (i : Nat) => Value.int (low + i))
  | _, _ => throw .failed

/-- Which items of a list as written have the origin of an expression. -/
def sharedItems (e : Expression) : Expression → List Bool
  | .list items => items.map (samePlace e)
  | _ => []

/-- The operators that always look at both operands. Of operands with a shared origin, maps are the
same. -/
def binaryValue (op : BinaryOp) (shared : Bool) (a b : Value) : Result :=
  match op with
  | .eq => .ok (.bool (equal shared a b))
  | .ne => .ok (.bool (!equal shared a b))
  | .lt => ofBool? (less? a b)
  | .le => ofBool? (lessEq? a b)
  | .gt => ofBool? (less? b a)
  | .ge => ofBool? (lessEq? b a)
  | .contains => textTest (fun s t => Bytes.contains t s) a b
  | .startsWith => textTest (fun s t => Bytes.startsWith t s) a b
  | .endsWith => textTest (fun s t => Bytes.endsWith t s) a b
  | .add => ofOption (add? a b)
  | .sub => ofOption (sub? a b)
  | .mul => ofOption (mul? a b)
  | .div => ofOption (div? a b)
  | .mod => ofOption (mod? a b)
  | .pow => ofOption (pow? a b)
  | .memberOf | .range | .and | .or | .orElse => .error .failed

def unaryValue (op : UnaryOp) (v : Value) : Result :=
  match op, v with
  | .plus, v => .ok v
  | .minus, v => ofOption (negate? v)
  | .not, .bool b => .ok (.bool !b)
  | .not, _ => .error .failed

/-- Drops the characters of a set from both ends of a text. -/
def trimSet (set s : Bytes) : Bytes :=
  let among (g : Text.Glyph) : Bool := g ∈ Text.Utf8.decode set
  (((Text.Utf8.decode s).dropWhile among).reverse.dropWhile among).reverse.flatMap Text.Utf8.encode

/-- The value of a function. -/
def applyFunction (f : Function) (args : List Value) : Result :=
  match f, args with
  | .len, [.text s] => .ok (.nat s.length)
  | .len, [.list _ xs] => .ok (.nat xs.length)
  | .len, [.record fields] => .ok (.nat fields.length)
  | .len, [.table _ entries] => .ok (.nat entries.length)
  | .upper, [.text s] => .ok (.text (Text.upper s))
  | .lower, [.text s] => .ok (.text (Text.lower s))
  | .trim, [.text s] => .ok (.text (Text.trim s))
  | .trim, [.text s, .text set] => .ok (.text (trimSet set s))
  | _, _ => .error .failed

/-- A map of pairs; of two with one key the first counts. -/
def bindingsOf : List (Value × Value) → Evaluation Value := fun pairs => do
  let fields ← pairs.foldrM
    (fun e (fields : Bindings) =>
      match e.1 with
      | .text name => return Assoc.insert name e.2 fields
      | _ => throw .failed) []
  return .record fields

mutual

/-- The value of an expression under bindings. -/
def value (lookup : Lookup) : Expression → Evaluation Value
  | .literal v => return v
  | .var name => return (lookup name).getD .null
  | .list items => do
    let values ← valueList lookup items
    make values.length
    return .items values
  | .map pairs => do
    let bindings ← valuePairs lookup pairs
    make pairs.length
    bindingsOf bindings
  | .unary op e => do settle (unaryValue op (target (← value lookup e)))
  | .binary op a b => do
    match op with
    | .and =>
      match ← value lookup a with
      | .bool true => value lookup b
      | .bool false => return .bool false
      | _ => throw .failed
    | .or =>
      match ← value lookup a with
      | .bool true => return .bool true
      | .bool false => value lookup b
      | _ => throw .failed
    | .orElse =>
      let x ← value lookup a
      if isAbsent x then value lookup b else return x
    | .range =>
      let x ← value lookup a
      let y ← value lookup b
      rangeOf (target x) (target y)
    | .memberOf =>
      let x ← value lookup a
      let y ← value lookup b
      settle (holds (sharedItems a b) (target x) (target y))
    | op =>
      let x ← value lookup a
      let y ← value lookup b
      settle (binaryValue op (samePlace a b) (target x) (target y))
  | .member owner index isOptional => do
    let x ← value lookup owner
    if isOptional && isAbsent x then throw .absent
    let i ← value lookup index
    settle (fetch (target x) i)
  | .chain e => do
    try
      let v ← value lookup e
      return if isAbsent v then .null else v
    catch
      | .absent => return .null
      | .failed => throw .failed
  | .choice c yes no => do
    match ← value lookup c with
    | .bool true => value lookup yes
    | .bool false => value lookup no
    | _ => throw .failed
  | .apply f args => do settle (applyFunction f (← valueList lookup args))
  | .call callee args => do
    let _ ← valueList lookup args
    let _ ← value lookup callee
    throw .failed

def valueList (lookup : Lookup) : List Expression → Evaluation (List Value)
  | [] => return []
  | e :: es => do return (← value lookup e) :: (← valueList lookup es)

def valuePairs (lookup : Lookup) : List (Expression × Expression) → Evaluation (List (Value × Value))
  | [] => return []
  | (k, v) :: rest => do
    let key ← value lookup k
    let v ← value lookup v
    return (key, v) :: (← valuePairs lookup rest)

end

/-- The value of an expression under bindings, or why there is none. -/
def eval (e : Expression) (lookup : Lookup) : Result := ((value lookup e).run 0).1

end Stencil.Expression
