import Stencil.Text.CodePoints
import Stencil.Text.Utf8

/-!
# Quoted text

Text between double quotes as messages and listings show it: printable characters stand for
themselves, the usual control characters have a letter, and everything else is written by number.
-/
namespace Stencil.Text

/-- The letter written after a backslash for a control character that has one. -/
def controlLetter? (n : Nat) : Option Char :=
  match n with
  | 7 => some 'a'
  | 8 => some 'b'
  | 9 => some 't'
  | 10 => some 'n'
  | 11 => some 'v'
  | 12 => some 'f'
  | 13 => some 'r'
  | _ => none

/-- One glyph inside the quote character `mark`. -/
def quoteGlyph (mark : Char) : Glyph → Bytes
  | .stray b => "\\x" ++ hexPadded 2 b.toNat
  | .char c =>
    if c = mark ∨ c = '\\' then ascii '\\' :: Utf8.encodeChar c
    else if isPrintable c then Utf8.encodeChar c
    else match controlLetter? c.toNat with
      | some l => [ascii '\\', ascii l]
      | none =>
        if c.toNat < 0x20 ∨ c.toNat = 0x7F then "\\x" ++ hexPadded 2 c.toNat
        else if c.toNat < 0x10000 then "\\u" ++ hexPadded 4 c.toNat
        else "\\U" ++ hexPadded 8 c.toNat

/-- A text between double quotes. -/
def quoted (s : Bytes) : Bytes :=
  ascii '"' :: (Utf8.decode s).flatMap (quoteGlyph '"') ++ [ascii '"']

/-- A byte, taken as the character of that number, between apostrophes. -/
def quotedByte (b : UInt8) : Bytes :=
  ascii '\'' :: quoteGlyph '\'' (.char (Char.ofNat b.toNat)) ++ [ascii '\'']

end Stencil.Text
