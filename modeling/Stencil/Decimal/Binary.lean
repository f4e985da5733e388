import Stencil.Text.Bytes

/-!
# Binary floating point

A finite binary number is `mantissa · 2 ^ exponent`. `Width` says how many bits the mantissa has
and how small the exponent may get; `nearest` rounds a quotient of natural numbers to such a
number, a tie going to the even mantissa.
-/
namespace Stencil.Decimal

/-- A binary format: `precision` bits of mantissa, exponents from `lowest` to `highest`. -/
structure Width where
  precision : Nat
  lowest : Int
  highest : Int

def double : Width := ⟨53, -1074, 971⟩

def single : Width := ⟨24, -149, 104⟩

/-- The magnitude of a number in a binary format. -/
inductive Magnitude where
  | finite (mantissa : Nat) (exponent : Int)
  | infinite
  | notANumber
  deriving DecidableEq, Repr

/-- A power of two. -/
def twoTo (n : Nat) : Nat := Nat.pow 2 n

/-- `num / den` to the nearest natural number, a half going to the even one. -/
def roundHalfEven (num den : Nat) : Nat :=
  let q := num / den
  let r := num % den
  if 2 * r < den then q else if den < 2 * r then q + 1 else if q % 2 = 0 then q else q + 1

/-- `num / (den · 2 ^ e)` rounded to a natural number. -/
def roundScaled (num den : Nat) (e : Int) : Nat :=
  if 0 ≤ e then roundHalfEven num (den * twoTo e.toNat)
  else roundHalfEven (num * twoTo (-e).toNat) den

/-- The number of the format nearest to `num / den`. -/
def Width.nearest (w : Width) (num den : Nat) : Magnitude :=
  if num = 0 then .finite 0 w.lowest
  else
    let guess : Int := num.log2 - den.log2 - w.precision
    -- the quotient by `2 ^ guess` has `precision` or one more bits, so `guess` may be one too low
    let e := max guess w.lowest
    let m := roundScaled num den e
    let (m, e) :=
      if twoTo w.precision ≤ m then (roundScaled num den (e + 1), e + 1) else (m, e)
    let (m, e) := if twoTo w.precision ≤ m then (twoTo (w.precision - 1), e + 1) else (m, e)
    if w.highest < e then .infinite else .finite m e

/-- The stored bits without the sign. -/
def Width.pack (w : Width) : Magnitude → Nat
  | .finite m e =>
    if m < twoTo (w.precision - 1) then m
    else ((e - w.lowest + 1).toNat - 1) * twoTo (w.precision - 1) + m
  | .infinite => ((w.highest - w.lowest + 2).toNat) * twoTo (w.precision - 1)
  | .notANumber =>
    ((w.highest - w.lowest + 2).toNat) * twoTo (w.precision - 1) + twoTo (w.precision - 2)

/-- Reads the stored bits without the sign. -/
def Width.unpack (w : Width) (bits : Nat) : Magnitude :=
  let field := bits / twoTo (w.precision - 1)
  let low := bits % twoTo (w.precision - 1)
  if field = 0 then .finite low w.lowest
  else if (w.highest - w.lowest + 2).toNat ≤ field then
    if low = 0 then .infinite else .notANumber
  else .finite (low + twoTo (w.precision - 1)) (w.lowest + field - 1)

/-- A sign and a magnitude. -/
structure Signed where
  negative : Bool
  magnitude : Magnitude
  deriving DecidableEq, Repr

def ofFloat (x : Float) : Signed :=
  let bits := x.toBits.toNat
  ⟨twoTo 63 ≤ bits, double.unpack (bits % twoTo 63)⟩

def ofFloat32 (x : Float32) : Signed :=
  let bits := x.toBits.toNat
  ⟨twoTo 31 ≤ bits, single.unpack (bits % twoTo 31)⟩

def toFloat (x : Signed) : Float :=
  Float.ofBits ((if x.negative then twoTo 63 else 0) + double.pack x.magnitude).toUInt64

def toFloat32 (x : Signed) : Float32 :=
  Float32.ofBits ((if x.negative then twoTo 31 else 0) + single.pack x.magnitude).toUInt32

/-- The double nearest to an integer. -/
def floatOfInt (n : Int) : Float := toFloat ⟨n < 0, double.nearest n.natAbs 1⟩

end Stencil.Decimal
