import Stencil.Decimal.Exponential

/-!
# Powers of floating point numbers

`x` to the power `y`: the whole part of `y` by squaring the mantissa of `x`, the rest through the
logarithm, so that small whole powers round after every multiplication.
-/
namespace Stencil.Decimal

def infinity : Float := 1.0 / 0.0

def notANumber : Float := 0.0 / 0.0

def isNegative (x : Float) : Bool := (ofFloat x).negative

/-- A whole number that is odd. -/
def isOddWhole (x : Float) : Bool :=
  if x.abs ≥ 9007199254740992.0 then false
  else x.floor == x && (x.abs / 2).floor * 2 != x.abs

/-- Multiplies `a · 2 ^ ae` by `x · 2 ^ xe` once for each bit of the exponent that is set. -/
def squaring : (fuel : Nat) → (a : Float) → (ae : Int) → (x : Float) → (xe : Int) → (n : Nat) →
    Float × Int
  | 0, a, ae, _, _, _ => (a, ae)
  | fuel + 1, a, ae, x, xe, n =>
    if n = 0 then (a, ae)
    else if xe < -4096 ∨ 4096 < xe then (a, ae + xe)
    else
      let (a, ae) := if n % 2 = 1 then (a * x, ae + xe) else (a, ae)
      let x := x * x
      let xe := 2 * xe
      let (x, xe) := if x < 0.5 then (x + x, xe - 1) else (x, xe)
      squaring fuel a ae x xe (n / 2)

/-- The power of a finite number other than zero and one to a finite exponent other than zero and
one. -/
def powerFinite (x y : Float) : Float :=
  let whole := y.abs.floor
  let rest := y.abs - whole
  if rest != 0 && x < 0 then notANumber
  else if whole ≥ 9223372036854775808.0 then
    if x == -1 then 1
    else if (x.abs < 1) == (y > 0) then 0
    else infinity
  else
    let (whole, rest) := if rest > 0.5 then (whole + 1, rest - 1) else (whole, rest)
    let start := if rest != 0 then expOf (rest * logOf x) else 1
    let (mantissa, exponent) := x.frExp
    let (a, ae) := squaring 65 start 0 mantissa exponent whole.toUInt64.toNat
    if y < 0 then (1 / a).scaleB (-ae) else a.scaleB ae

/-- The power of an infinite number. -/
def powerOfInfinite (x y : Float) : Float :=
  if x < 0 then
    -- the power of a negative zero to the opposite exponent
    if y > 0 then if isOddWhole y then -infinity else infinity
    else if isOddWhole y then -0.0 else 0
  else if y < 0 then 0 else infinity

/-- `x` to the power `y`. -/
def power (x y : Float) : Float :=
  if y == 0 || x == 1 then 1
  else if y == 1 then x
  else if x.isNaN || y.isNaN then notANumber
  else if x == 0 then
    if y < 0 then if isNegative x && isOddWhole y then -infinity else infinity
    else if isNegative x && isOddWhole y then x else 0
  else if y.isInf then
    if x == -1 then 1
    else if (x.abs < 1) == (y > 0) then 0
    else infinity
  else if x.isInf then powerOfInfinite x y
  else if y == 0.5 then x.sqrt
  else if y == -0.5 then 1 / x.sqrt
  else powerFinite x y

end Stencil.Decimal
