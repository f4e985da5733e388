import Stencil.Decimal.Shortest

/-!
# Number texts

How the shortest digits are set: positionally, or with an exponent. One record holds what the
places that print numbers decide differently.
-/
namespace Stencil.Decimal

/-- The decisions of a number format. -/
structure NumberStyle where
  /-- Decimal exponents below this are written with an exponent. -/
  least : Option Int
  /-- Decimal exponents from this on are written with an exponent. -/
  most : Option Int
  /-- The least number of digits of an exponent. -/
  exponentWidth : Nat

/-- Output text is positional whatever the size. -/
def plainStyle : NumberStyle := ⟨none, none, 2⟩

/-- Numbers inside a listing of values switch to an exponent at a million and below a ten
thousandth. -/
def listingStyle : NumberStyle := ⟨some (-4), some 6, 2⟩

/-- Numbers of a JSON text switch at `10 ^ 21` and below a millionth. -/
def jsonStyle : NumberStyle := ⟨some (-6), some 21, 1⟩

def digitBytes (ds : List Nat) : Bytes := ds.map fun d => (48 + d).toUInt8

/-- Positional digits. -/
def positional (d : Digits) : Bytes :=
  if d.digits = [] then "0"
  else if d.exponent < 0 then
    "0." ++ List.replicate (-d.exponent - 1).toNat (ascii '0') ++ digitBytes d.digits
  else
    let whole := d.exponent.toNat + 1
    let lead := digitBytes (d.digits.take whole)
      ++ List.replicate (whole - d.digits.length) (ascii '0')
    let rest := d.digits.drop whole
    if rest = [] then lead else lead ++ "." ++ digitBytes rest

/-- Digits with an exponent. -/
def exponential (width : Nat) (d : Digits) : Bytes :=
  let lead := digitBytes (d.digits.take 1)
  let rest := d.digits.drop 1
  (if rest = [] then lead else lead ++ "." ++ digitBytes rest)
    ++ (if d.exponent < 0 then "e-" else "e+") ++ Bytes.padded width d.exponent.natAbs

def NumberStyle.digits (style : NumberStyle) (d : Digits) : Bytes :=
  if d.digits ≠ [] ∧ (style.least.any (d.exponent < ·) ∨ style.most.any (· ≤ d.exponent)) then
    exponential style.exponentWidth d
  else positional d

/-- The text of a number of the given format. -/
def NumberStyle.text (style : NumberStyle) (w : Width) (x : Signed) : Bytes :=
  match x.magnitude with
  | .notANumber => "NaN"
  | .infinite => if x.negative then "-Inf" else "+Inf"
  | .finite m e =>
    let body := style.digits (shortest w m e)
    if x.negative then ascii '-' :: body else body

def NumberStyle.float (style : NumberStyle) (x : Float) : Bytes := style.text double (ofFloat x)

def NumberStyle.float32 (style : NumberStyle) (x : Float32) : Bytes :=
  style.text single (ofFloat32 x)

/-- A quotient with one decimal place, a half going to the even tenth. -/
def oneDecimal (num den : Nat) : Bytes :=
  let tenths := roundHalfEven (num * 10) den
  Bytes.ofNat (tenths / 10) ++ "." ++ Bytes.ofNat (tenths % 10)

end Stencil.Decimal
