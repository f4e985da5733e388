import Stencil.Decimal.Binary

/-!
# Shortest decimals

The fewest decimal digits that read back as a given binary number and, of those, the nearest to
it. A candidate of `n` digits is one of the number's two neighbours on the grid of `n` digit
decimals; it reads back when it lies between the midpoints to the adjacent binary numbers, which
themselves count when the mantissa is even.
-/
namespace Stencil.Decimal

/-- The digits `d₁ d₂ …` and exponent of `d₁.d₂… · 10 ^ exponent`; no trailing zeros, and no
digits for zero. -/
structure Digits where
  digits : List Nat
  exponent : Int
  deriving DecidableEq, Repr

/-- The decimal digits of a natural number. -/
def digitsOf (n : Nat) : List Nat := (Nat.toDigits 10 n).map fun c => c.toNat - 48

/-- `n · 10 ^ scale` without trailing zeros. -/
def Digits.ofScaled (n : Nat) (scale : Int) : Digits :=
  if n = 0 then ⟨[], 0⟩
  else
    let ds := digitsOf n
    ⟨(ds.reverse.dropWhile (· == 0)).reverse, scale + ds.length - 1⟩

/-- Powers with an integer exponent as a numerator and a denominator. -/
def powUp (base : Nat) (e : Int) : Nat := Nat.pow base e.toNat

def powDown (base : Nat) (e : Int) : Nat := Nat.pow base (-e).toNat

/-- A binary number with the midpoints to its neighbours, in units of `2 ^ unit`. -/
structure Interval where
  value : Nat
  low : Nat
  high : Nat
  closed : Bool
  unit : Int

def Interval.of (w : Width) (m : Nat) (e : Int) : Interval where
  value := 4 * m
  low := if m = twoTo (w.precision - 1) ∧ w.lowest < e then 4 * m - 1 else 4 * m - 2
  high := 4 * m + 2
  closed := m % 2 == 0
  unit := e - 2

/-- `n · 10 ^ k` lies in the interval. -/
def Interval.holds (i : Interval) (n : Nat) (k : Int) : Bool :=
  let x := n * powUp 10 k * powDown 2 i.unit
  let unit := powDown 10 k * powUp 2 i.unit
  if i.closed then i.low * unit ≤ x && x ≤ i.high * unit
  else i.low * unit < x && x < i.high * unit

/-- The neighbour of the value on the grid of multiples of `10 ^ k` that lies in the interval;
of two the nearer, of two equally near the even one. -/
def Interval.onGrid (i : Interval) (k : Int) : Option Nat :=
  let num := i.value * powDown 10 k * powUp 2 i.unit
  let den := powUp 10 k * powDown 2 i.unit
  let below := num / den
  match i.holds below k && below != 0, i.holds (below + 1) k with
  | false, false => none
  | true, false => some below
  | false, true => some (below + 1)
  | true, true => some (roundHalfEven num den)

/-- The exponent of the first decimal digit of `num / den`. -/
def leadingExponent (num den : Nat) : Int :=
  if den ≤ num then ((Nat.toDigits 10 (num / den)).length : Int) - 1
  else
    -- the least `k` with `num · 10 ^ k ≥ den`, from a guess that is at most one too small
    let guess := (Nat.toDigits 10 (den / num)).length - 1
    if den ≤ num * Nat.pow 10 guess then -(guess : Int) else -(guess + 1 : Int)

/-- Tries grids of more and more digits. -/
def Interval.search (i : Interval) (lead : Int) : Nat → Nat → Digits
  | 0, n => Digits.ofScaled
      (roundHalfEven (i.value * powDown 10 (lead - n + 1) * powUp 2 i.unit)
        (powUp 10 (lead - n + 1) * powDown 2 i.unit)) (lead - n + 1)
  | fuel + 1, n =>
    let k := lead - n + 1
    match i.onGrid k with
    | some c => Digits.ofScaled c k
    | none => i.search lead fuel (n + 1)

/-- The shortest digits of a finite number. Seventeen always suffice. -/
def shortest (w : Width) (m : Nat) (e : Int) : Digits :=
  if m = 0 then ⟨[], 0⟩
  else
    let i := Interval.of w m e
    i.search (leadingExponent (m * powUp 2 e) (powDown 2 e)) 17 1

end Stencil.Decimal
