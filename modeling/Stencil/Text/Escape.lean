import Stencil.Text.CodePoints
import Stencil.Text.Utf8

/-!
# Escaping of output

Text made safe for markup and for a quoted script string.
-/
namespace Stencil.Text

/-- What is written in markup for one byte. -/
def escapeHtmlByte (c : UInt8) : Bytes :=
  if c = ascii '&' then "&amp;"
  else if c = ascii '\'' then "&#39;"
  else if c = ascii '<' then "&lt;"
  else if c = ascii '>' then "&gt;"
  else if c = ascii '"' then "&#34;"
  else [c]

/-- A text for markup content or a quoted attribute. -/
def escapeHtml (s : Bytes) : Bytes := s.flatMap escapeHtmlByte

/-- The upper case hexadecimal digits of a number, at least four. -/
def hexUpper (n : Nat) : Bytes :=
  let digits := (Nat.toDigits 16 n).map fun c => ascii c.toUpper
  List.replicate (4 - digits.length) (ascii '0') ++ digits

/-- What is written in a script string for one glyph. -/
def escapeScriptGlyph : Glyph → Bytes
  | .stray b => [b]
  | .char c =>
    if c = '\\' ∨ c = '\'' ∨ c = '"' then [ascii '\\', ascii c]
    else if c = '<' ∨ c = '>' ∨ c = '&' ∨ c = '=' ∨ c.toNat < 0x20 then "\\u" ++ hexUpper c.toNat
    else if c.toNat < 0x80 ∨ isPrintable c then Utf8.encodeChar c
    else "\\u" ++ hexUpper c.toNat

/-- A text for the inside of a quoted script string. -/
def escapeScript (s : Bytes) : Bytes := (Utf8.decode s).flatMap escapeScriptGlyph

end Stencil.Text
