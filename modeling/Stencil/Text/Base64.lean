import Stencil.Text.Bytes

/-!
# Base 64

Bytes as letters, digits and two signs: three bytes become four digits of six bits, and equals
signs fill up the last group.
-/
namespace Stencil.Text.Base64

def digits : Bytes := "ABCDEFGHIJKLMNOPQRSTUVWXYZabcdefghijklmnopqrstuvwxyz0123456789+/"

def padding : UInt8 := ascii '='

/-- The digit of a number below 64. -/
def digit (n : Nat) : UInt8 := digits.getD n padding

/-- The number that a digit stands for. -/
def value? (c : UInt8) : Option Nat := digits.findIdx? (· == c)

/-- The text of some bytes. -/
def encode : Bytes → Bytes
  | [] => []
  | [a] => [digit (a.toNat / 4), digit (a.toNat % 4 * 16), padding, padding]
  | [a, b] =>
    [digit (a.toNat / 4), digit (a.toNat % 4 * 16 + b.toNat / 16), digit (b.toNat % 16 * 4), padding]
  | a :: b :: c :: rest =>
    digit (a.toNat / 4) :: digit (a.toNat % 4 * 16 + b.toNat / 16)
      :: digit (b.toNat % 16 * 4 + c.toNat / 64) :: digit (c.toNat % 64) :: encode rest

/-- The bytes of whole groups of digits; only the last group may be filled up. -/
def decodeGroups : Bytes → Option Bytes
  | [] => some []
  | a :: b :: c :: d :: rest => do
    let x ← value? a
    let y ← value? b
    let first := (x * 4 + y / 16).toUInt8
    if c = padding then
      if d = padding ∧ rest = [] then some [first] else none
    else do
      let z ← value? c
      let second := (y % 16 * 16 + z / 4).toUInt8
      if d = padding then if rest = [] then some [first, second] else none
      else do
        let w ← value? d
        let more ← decodeGroups rest
        some (first :: second :: (z % 4 * 64 + w).toUInt8 :: more)
  | _ => none

/-- The bytes that a text stands for; line breaks in it do not count. -/
def decode? (s : Bytes) : Option Bytes := decodeGroups (s.filter fun c => c != 10 && c != 13)

end Stencil.Text.Base64
