import Stencil.Text.Bytes

/-!
# Blanks

White space at the ends of a text. The blanks are the ASCII ones, the next line and no-break
space controls, and the spaces and separators of the general punctuation and ideographic blocks,
each recognised by its UTF-8 bytes.
-/
namespace Stencil.Text

/-- The ASCII blanks: tab, line feed, vertical tab, form feed, carriage return and space. -/
def isAsciiBlank (c : UInt8) : Bool := (9 ≤ c && c ≤ 13) || c == 32

/-- The last byte of a blank that starts with the bytes E2 80. -/
def isPunctuationBlank (c : UInt8) : Bool :=
  (0x80 ≤ c && c ≤ 0x8A) || c == 0xA8 || c == 0xA9 || c == 0xAF

/-- The text without its leading blanks. -/
def trimLeft : Bytes → Bytes
  | [] => []
  | [a] => if isAsciiBlank a then [] else [a]
  | [a, b] =>
    if isAsciiBlank a then trimLeft [b]
    else if a = 0xC2 ∧ (b = 0x85 ∨ b = 0xA0) then []
    else [a, b]
  | a :: b :: c :: rest =>
    if isAsciiBlank a then trimLeft (b :: c :: rest)
    else if a = 0xC2 ∧ (b = 0x85 ∨ b = 0xA0) then trimLeft (c :: rest)
    else if a = 0xE2 ∧ b = 0x80 ∧ isPunctuationBlank c then trimLeft rest
    else if (a = 0xE1 ∧ b = 0x9A ∧ c = 0x80) ∨ (a = 0xE2 ∧ b = 0x81 ∧ c = 0x9F)
        ∨ (a = 0xE3 ∧ b = 0x80 ∧ c = 0x80) then trimLeft rest
    else a :: b :: c :: rest

/-- Drops blanks from the front of a reversed text. -/
def trimReversed : Bytes → Bytes
  | [] => []
  | [a] => if isAsciiBlank a then [] else [a]
  | [b, a] =>
    if isAsciiBlank b then trimReversed [a]
    else if a = 0xC2 ∧ (b = 0x85 ∨ b = 0xA0) then []
    else [b, a]
  | c :: b :: a :: rest =>
    if isAsciiBlank c then trimReversed (b :: a :: rest)
    else if b = 0xC2 ∧ (c = 0x85 ∨ c = 0xA0) then trimReversed (a :: rest)
    else if a = 0xE2 ∧ b = 0x80 ∧ isPunctuationBlank c then trimReversed rest
    else if (a = 0xE1 ∧ b = 0x9A ∧ c = 0x80) ∨ (a = 0xE2 ∧ b = 0x81 ∧ c = 0x9F)
        ∨ (a = 0xE3 ∧ b = 0x80 ∧ c = 0x80) then trimReversed rest
    else c :: b :: a :: rest

/-- The text without its trailing blanks. -/
def trimRight (s : Bytes) : Bytes := (trimReversed s.reverse).reverse

/-- The text without the blanks at its ends. -/
def trim (s : Bytes) : Bytes := trimRight (trimLeft s)

/-- Only blanks. -/
def isBlank (s : Bytes) : Bool := trimLeft s == []

end Stencil.Text
