import Stencil.Decimal.Binary

/-!
# Exponentials and logarithms

The exponential and the natural logarithm of floating point numbers, each by a fixed sequence of
rounded operations, so that the last bit of a result is settled.

The exponential takes a multiple of the logarithm of two from its argument, sums a series at a
sixteenth of the rest, and squares four times. The logarithm splits off a power of two and sums a
series in `f / (2 + f)`, where `1 + f` is the rest.
-/
namespace Stencil.Decimal

/-- A finite number as a whole number of units of `2 ^ scale`. -/
def unitsOf (scale : Int) (x : Float) : Int :=
  match ofFloat x with
  | ⟨negative, .finite m e⟩ =>
    let n : Int := m * twoTo (e - scale).toNat
    if negative then -n else n
  | _ => 0

/-- `a · b + c` for finite numbers, rounded once. -/
def mulAdd (a b c : Float) : Float :=
  let lowest := double.lowest
  let sum := unitsOf lowest a * unitsOf lowest b
    + unitsOf lowest c * twoTo (-lowest).toNat
  toFloat ⟨sum < 0, double.nearest sum.natAbs (twoTo (-2 * lowest).toNat)⟩

/-- The nearest whole number, a half going to the even one. -/
def nearestWhole (x : Float) : Int :=
  let n : Int := roundHalfEven (unitsOf double.lowest x).natAbs (twoTo (-double.lowest).toNat)
  if x < 0 then -n else n

/-- The logarithm of two, in two parts of which the first one is short. -/
def logTwoUpper : Float := 0.69314718055966295651160180568695068359375

def logTwoLower : Float := 0.28235290563031577122588448175013436025525412068e-12

/-- One over the logarithm of two. -/
def logTwoInverse : Float := 1.4426950408889634073599246810018920

/-- The factors of the exponential series, from the last one down to that of the first power. -/
def expSeries : List Float :=
  [1.9841269841269841270e-4, 1.3888888888888888889e-3, 8.3333333333333333333e-3,
    4.1666666666666666667e-2, 1.6666666666666666667e-1, 0.5, 1.0]

/-- The exponential of a finite number that is neither very large nor very small. -/
def expOf (x : Float) : Float :=
  let count := nearestWhole (x * logTwoInverse)
  let k := floatOfInt count
  let rest := mulAdd (-logTwoLower) k (mulAdd (-logTwoUpper) k x)
  let part := rest * 0.0625
  let series := expSeries.foldl (fun sum c => mulAdd sum part c) 2.4801587301587301587e-5
  -- the exponential less one, of twice the argument each time
  let double (d : Float) : Float := d * (d + 2)
  let d := double (double (double (part * series)))
  (mulAdd d (d + 2) 1).scaleB count

/-- The logarithm of two, in two parts of which the first one is short. -/
def lnTwoHigh : Float := 6.93147180369123816490e-01

def lnTwoLow : Float := 1.90821492927058770002e-10

/-- The natural logarithm of a finite number above zero. -/
def logOf (x : Float) : Float :=
  let (m, e) := x.frExp
  let (m, e) := if m < 0.70710678118654752440 then (m * 2, e - 1) else (m, e)
  let f := m - 1
  let k := floatOfInt e
  let s := f / (2 + f)
  let s2 := s * s
  let s4 := s2 * s2
  let odd := s2 * (6.666666666666735130e-01 + s4 * (2.857142874366239149e-01
    + s4 * (1.818357216161805012e-01 + s4 * 1.479819860511658591e-01)))
  let even := s4 * (3.999999999940941908e-01
    + s4 * (2.222219843214978396e-01 + s4 * 1.531383769920937332e-01))
  let series := odd + even
  let half := 0.5 * f * f
  k * lnTwoHigh - ((half - (s * (half + series) + k * lnTwoLow)) - f)

end Stencil.Decimal
