import Stencil.Decimal.Power
import Stencil.Value.Display
import Stencil.Wrap

/-!
# Arithmetic on values

Whole numbers are those of 64 bits with a sign, and wrap around. An operation on two whole numbers
gives a whole number; with a float among its operands it gives a float. Numbers are equal when their
values are, whatever their types.
-/
namespace Stencil.Value

/-- What a number is in arithmetic. A whole number may lie above those with a sign: among whole
numbers it counts as the one it wraps around to, among floats as itself. -/
inductive Number where
  | whole (n : Int)
  | float (x : Float)

namespace Number

def toFloat : Number → Float
  | .whole n => Decimal.floatOfInt n
  | .float x => x

def toValue : Number → Value
  | .whole n => .int n
  | .float x => .float x

/-- Applies one of two operations, by the types of the operands. -/
def combine (whole : Int → Int → Int) (float : Float → Float → Float) (a b : Number) : Number :=
  match a, b with
  | .whole m, .whole n => .whole (wrap (whole (wrap m) (wrap n)))
  | a, b => .float (float a.toFloat b.toFloat)

def compare (whole : Int → Int → Bool) (float : Float → Float → Bool) (a b : Number) : Bool :=
  match a, b with
  | .whole m, .whole n => whole (wrap m) (wrap n)
  | a, b => float a.toFloat b.toFloat

def equal : Number → Number → Bool := compare (· == ·) (· == ·)

end Number

def number? : Value → Option Number
  | .int n => some (.whole n)
  | .sized _ n => some (.whole n)
  | .float x => some (.float x)
  | .float32 x => some (.float x.toFloat)
  | _ => none

/-- A float without its fraction. What is no whole number of 64 bits becomes the least one. -/
def wholePart (x : Float) : Int :=
  if (-(Decimal.floatOfInt wordLimit) ≤ x && x < Decimal.floatOfInt wordLimit) then x.toInt64.toInt
  else -wordLimit

/-- The whole number that a value stands for as an index. -/
def index? (v : Value) : Option Int :=
  match v.number? with
  | some (.whole n) => some (wrap n)
  | some (.float x) => some (wholePart x)
  | none => none

/-- The number with its sign changed, of the same type. -/
def negate? : Value → Option Value
  | .int n => some (.int (wrap (-n)))
  | .sized t n =>
    let (low, count) := SizedInt.bounds t
    some (.sized t ((-n - low) % count + low))
  | .float x => some (.float (-x))
  | .float32 x => some (.float32 (-x))
  | _ => none

/-- An arithmetic operation on two numbers. -/
def arithmetic? (whole : Int → Int → Int) (float : Float → Float → Float) (a b : Value) :
    Option Value := do
  return (Number.combine whole float (← a.number?) (← b.number?)).toValue

/-- The sum of two numbers, or two texts put together. -/
def add? (a b : Value) : Option Value :=
  match a, b with
  | .text s, .text t => some (.text (s ++ t))
  | a, b => arithmetic? (· + ·) (· + ·) a b

def sub? : Value → Value → Option Value := arithmetic? (· - ·) (· - ·)

def mul? : Value → Value → Option Value := arithmetic? (· * ·) (· * ·)

/-- The quotient, always a float. -/
def div? (a b : Value) : Option Value := do
  return .float ((← a.number?).toFloat / (← b.number?).toFloat)

/-- The remainder of two whole numbers, with the sign of the dividend. -/
def mod? (a b : Value) : Option Value :=
  match a.number?, b.number? with
  | some (.whole m), some (.whole n) =>
    if wrap n = 0 then none else some (.int (wrap ((wrap m).tmod (wrap n))))
  | _, _ => none

def pow? (a b : Value) : Option Value := do
  return .float (Decimal.power (← a.number?).toFloat (← b.number?).toFloat)

/-- An order on numbers, on texts and on times. -/
def order? (whole : Int → Int → Bool) (float : Float → Float → Bool) (text : Bytes → Bytes → Bool)
    (a b : Value) : Option Bool :=
  match a, b with
  | .text s, .text t => some (text s t)
  | .time s, .time t => some (whole s.nanos t.nanos)
  | a, b => do return Number.compare whole float (← a.number?) (← b.number?)

def less? : Value → Value → Option Bool :=
  order? (· < ·) (· < ·) fun s t => Bytes.le s t && s != t

def lessEq? : Value → Value → Option Bool := order? (· ≤ ·) (· ≤ ·) Bytes.le

mutual

/-- Values of one type with the same content. -/
def same : Value → Value → Bool
  | .null, .null => true
  | .bool a, .bool b => a == b
  | .int a, .int b => a == b
  | .sized s a, .sized t b => s == t && a == b
  | .float a, .float b => a == b
  | .float32 a, .float32 b => a == b
  | .text a, .text b => a == b
  | .time a, .time b => a == b
  | .list s xs, .list t ys => s == t && sameList xs ys
  | .record xs, .record ys => xs.length == ys.length && sameFields xs ys
  | .table s xs, .table t ys => s == t && xs.length == ys.length && sameEntries xs ys
  | .reference a _, .reference b _ => a == b
  | .unit, .unit => true
  | .named a, .named b => a == b
  | _, _ => false

def sameList : List Value → List Value → Bool
  | [], [] => true
  | x :: xs, y :: ys => same x y && sameList xs ys
  | _, _ => false

/-- Each binding is found in the other record. -/
def sameFields : List (Bytes × Value) → List (Bytes × Value) → Bool
  | [], _ => true
  | (k, x) :: xs, ys =>
    (match Assoc.get? k ys with
      | some y => same x y
      | none => false) && sameFields xs ys

def sameEntries : List (Value × Value) → List (Value × Value) → Bool
  | [], _ => true
  | (k, x) :: xs, ys => ys.any (fun e => same k e.1 && same x e.2) && sameEntries xs ys

end

/-- Lists that are compared item by item. -/
def comparable : ListType → ListType → Bool
  | .array _, _ => false
  | _, .array _ => false
  | s, t => s == .any || t == .any || s == t

/-- An absent value, or an empty reference. -/
def isAbsent : Value → Bool
  | .null => true
  | .reference none _ => true
  | _ => false

mutual

/-- Equality as expressions see it: numbers by value, lists item by item, times by their instant,
all else by type and content. Of values with a shared origin, maps are one and the same map. -/
def equal (shared : Bool) : Value → Value → Bool
  | .list s xs, .list t ys =>
    if comparable s t then equalList shared xs ys else same (.list s xs) (.list t ys)
  | .record xs, .record ys => shared || same (.record xs) (.record ys)
  | .table s xs, .table t ys => shared || same (.table s xs) (.table t ys)
  | .time a, .time b => a.nanos == b.nanos
  | a, b =>
    match a.number?, b.number? with
    | some m, some n => Number.equal m n
    | _, _ => (isAbsent a && isAbsent b) || same a b

def equalList (shared : Bool) : List Value → List Value → Bool
  | [], [] => true
  | x :: xs, y :: ys => equal shared x y && equalList shared xs ys
  | _, _ => false

end

end Stencil.Value
