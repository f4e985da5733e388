import Stencil.Text.Bytes

/-!
# UTF-8

A byte string read as characters. Bytes that start no well-formed character are kept apart one by
one, so that a reader can treat them as it needs to.
-/
namespace Stencil.Text

/-- What stands at one place of a text: a character, or a byte that starts none. -/
inductive Glyph where
  | char (c : Char)
  | stray (b : UInt8)
  deriving DecidableEq, Repr

namespace Utf8

/-- The character shown for a byte that starts none. -/
def replacement : Char := Char.ofNat 0xFFFD

def isTail (b : UInt8) : Bool := 0x80 ≤ b && b ≤ 0xBF

/-- The character that starts with byte `b`, and how many of the following bytes it takes. -/
def first (b : UInt8) (rest : Bytes) : Glyph × Nat :=
  if b < 0x80 then (.char (Char.ofNat b.toNat), 0)
  else match rest with
    | c :: more =>
      if 0xC2 ≤ b ∧ b ≤ 0xDF then
        if isTail c then (.char (Char.ofNat ((b.toNat - 0xC0) * 64 + (c.toNat - 0x80))), 1)
        else (.stray b, 0)
      else match more with
        | d :: last =>
          if 0xE0 ≤ b ∧ b ≤ 0xEF then
            if isTail c ∧ isTail d ∧ (b = 0xE0 → 0xA0 ≤ c) ∧ (b = 0xED → c ≤ 0x9F) then
              (.char (Char.ofNat
                (((b.toNat - 0xE0) * 64 + (c.toNat - 0x80)) * 64 + (d.toNat - 0x80))), 2)
            else (.stray b, 0)
          else match last with
            | e :: _ =>
              if 0xF0 ≤ b ∧ b ≤ 0xF4 ∧ isTail c ∧ isTail d ∧ isTail e ∧
                  (b = 0xF0 → 0x90 ≤ c) ∧ (b = 0xF4 → c ≤ 0x8F) then
                (.char (Char.ofNat ((((b.toNat - 0xF0) * 64 + (c.toNat - 0x80)) * 64
                  + (d.toNat - 0x80)) * 64 + (e.toNat - 0x80))), 3)
              else (.stray b, 0)
            | [] => (.stray b, 0)
        | [] => (.stray b, 0)
    | [] => (.stray b, 0)

/-- A text as its characters and stray bytes, in order. -/
def decode : Bytes → List Glyph
  | [] => []
  | b :: rest => (first b rest).1 :: decode (rest.drop (first b rest).2)
termination_by s => s.length

/-- The bytes of a character. -/
def encodeChar (c : Char) : Bytes :=
  let n := c.toNat
  if n < 0x80 then [n.toUInt8]
  else if n < 0x800 then [(0xC0 + n / 64).toUInt8, (0x80 + n % 64).toUInt8]
  else if n < 0x10000 then
    [(0xE0 + n / 4096).toUInt8, (0x80 + n / 64 % 64).toUInt8, (0x80 + n % 64).toUInt8]
  else
    [(0xF0 + n / 262144).toUInt8, (0x80 + n / 4096 % 64).toUInt8, (0x80 + n / 64 % 64).toUInt8,
      (0x80 + n % 64).toUInt8]

/-- The bytes that a glyph was read from. -/
def encode : Glyph → Bytes
  | .char c => encodeChar c
  | .stray b => [b]

/-- Every byte belongs to a character. -/
def isValid (s : Bytes) : Bool :=
  (decode s).all fun g => match g with | .char _ => true | .stray _ => false

/-- The character of a glyph, a stray byte counting as the replacement character. -/
def charOf : Glyph → Char
  | .char c => c
  | .stray _ => replacement

end Utf8

end Stencil.Text
