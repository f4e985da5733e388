import Stencil.Decimal.Format

/-!
# Sizes for readers

A number of bytes in the largest unit that it fills, with one decimal place.
-/
namespace Stencil.ByteSize

/-- The units above the byte, each 1024 times the one before. -/
def units : Bytes := "KMGTPE"

/-- The first unit that holds fewer than 1024 of a size, with the number of bytes in it; `den` is
that of the first of the units. -/
def unitOf (size den : Nat) : Bytes → Nat × Bytes
  | [] => (den, [])
  | [u] => (den, [u])
  | u :: v :: us => if size / den < 1024 then (den, [u]) else unitOf size (den * 1024) (v :: us)

/-- The double nearest to a size. -/
def nearest (size : Nat) : Nat :=
  match Decimal.double.nearest size 1 with
  | .finite m e => if 0 ≤ e then m * Decimal.twoTo e.toNat else m / Decimal.twoTo (-e).toNat
  | _ => size

/-- The text of a size. What is shown of large sizes is the nearest double. -/
def text (size : Int) : Bytes :=
  if size < 1024 then Bytes.ofInt size ++ " B"
  else
    let (den, unit) := unitOf size.toNat 1024 units
    Decimal.oneDecimal (nearest size.toNat) den ++ " " ++ unit ++ "B"

end Stencil.ByteSize
