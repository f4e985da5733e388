import Stencil.Decimal.Binary

/-!
# Reading of numbers

The text of a floating point number: a sign, decimal or hexadecimal digits with a point and an
exponent, or one of the names for infinity and not-a-number. Underscores may stand between digits.
-/
namespace Stencil.Decimal

/-- Where the check of underscores stands: at the start, after a digit, after an underscore, or
after something else. -/
inductive Separator where
  | start
  | digit
  | underscore
  | other
  deriving DecidableEq

/-- Underscores stand only between digits, the base mark of a hexadecimal number counting as
one. -/
def underscoresFrom (hex : Bool) : Separator → Bytes → Bool
  | seen, [] => seen != .underscore
  | seen, c :: cs =>
    if isDigit c || (hex && (hexValue? c).isSome) then underscoresFrom hex .digit cs
    else if c = ascii '_' then seen == .digit && underscoresFrom hex .underscore cs
    else seen != .underscore && underscoresFrom hex .other cs

/-- Digits before and after the point with the underscores dropped, and what follows. The second
component counts the digits after the point. -/
def takeDigits (value? : UInt8 → Option Nat) :
    (point : Bool) → (digits : List Nat) → (places : Nat) → Bytes → List Nat × Nat × Bytes
  | _, ds, n, [] => (ds, n, [])
  | point, ds, n, c :: cs =>
    if c = ascii '_' then takeDigits value? point ds n cs
    else if c = ascii '.' then
      if point then (ds, n, c :: cs) else takeDigits value? true ds n cs
    else match value? c with
      | some d => takeDigits value? point (ds ++ [d]) (if point then n + 1 else n) cs
      | none => (ds, n, c :: cs)

def decimalValue? (c : UInt8) : Option Nat := if isDigit c then some (c.toNat - 48) else none

def ofDigits (base : Nat) (ds : List Nat) : Nat := ds.foldl (fun n d => n * base + d) 0

/-- An optional sign. -/
def takeSign : Bytes → Bool × Bytes
  | c :: cs =>
    if c = ascii '-' then (true, cs) else if c = ascii '+' then (false, cs) else (false, c :: cs)
  | [] => (false, [])

/-- The digits of an exponent, which must be the rest of the text. -/
def readExponent (s : Bytes) : Option Int :=
  let (negative, body) := takeSign s
  match body with
  | [] => none
  | c :: _ =>
    if isDigit c && body.all (fun d => isDigit d || d == ascii '_') then
      let n := ofDigits 10 (body.filterMap decimalValue?)
      some (if negative then -n else n)
    else none

/-- `n · base ^ e`, where an exponent beyond any format is cut so that the power stays small. -/
def scaled (w : Width) (base : Nat) (n : Nat) (e : Int) (digits : Nat) : Magnitude :=
  if n = 0 then .finite 0 w.lowest
  else if 5000 < e then .infinite
  else if e < -5000 - 4 * (digits : Int) then .finite 0 w.lowest
  else if 0 ≤ e then w.nearest (n * Nat.pow base e.toNat) 1
  else w.nearest n (Nat.pow base (-e).toNat)

/-- The magnitude of an unsigned number text. -/
def readMagnitude (w : Width) (s : Bytes) : Option Magnitude :=
  let low := s.map Bytes.lowerByte
  if low = "inf" ∨ low = "infinity" then some .infinite
  else if low = "nan" then some .notANumber
  else
    let hex := Bytes.startsWith "0x" low
    let body := if hex then low.drop 2 else low
    let (ds, places, rest) := takeDigits (if hex then hexValue? else decimalValue?) false [] 0 body
    if ds = [] ∨ ¬ underscoresFrom hex (if hex then .digit else .start) body then none
    else if hex then
      match rest with
      | c :: e =>
        if c = ascii 'p' then
          (readExponent e).map fun x => scaled w 2 (ofDigits 16 ds) (x - 4 * places) (4 * ds.length)
        else none
      | [] => none
    else
      match rest with
      | [] => some (scaled w 10 (ofDigits 10 ds) (-places) ds.length)
      | c :: e =>
        if c = ascii 'e' then
          (readExponent e).map fun x => scaled w 10 (ofDigits 10 ds) (x - places) ds.length
        else none

/-- A number text; not-a-number takes no sign. -/
def readSigned (w : Width) (s : Bytes) : Option Signed :=
  let (negative, body) := takeSign s
  match readMagnitude w body with
  | some .notANumber => if body.length = s.length then some ⟨false, .notANumber⟩ else none
  | some m => some ⟨negative, m⟩
  | none => none

/-- The double that a text stands for. A finite text beyond the largest double is refused. -/
def readFloat? (s : Bytes) : Option Float :=
  match readSigned double s with
  | some x =>
    if x.magnitude = .infinite ∧ s.any isDigit then none else some (toFloat x)
  | none => none

end Stencil.Decimal
