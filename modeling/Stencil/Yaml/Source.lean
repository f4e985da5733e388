import Stencil.Text.Utf8

/-!
# The characters of a YAML text

A text is UTF-8, or UTF-16 when it starts with the byte order mark of it. Control characters are
refused, and every way to end a line counts as a line feed, except for the two separators of
Unicode, which stay what they are.
-/
namespace Stencil.Yaml

open Stencil.Text

/-- Characters that may stand in a text. -/
def isAllowed (c : Char) : Bool :=
  let n := c.toNat
  n == 9 || n == 10 || n == 13 || (0x20 ≤ n && n ≤ 0x7E) || n == 0x85 || (0xA0 ≤ n && n ≤ 0xFFFD)
    || 0x10000 ≤ n

/-- The byte order mark. -/
def orderMark : Char := Char.ofNat 0xFEFF

def lineSeparator : Char := Char.ofNat 0x2028

def paragraphSeparator : Char := Char.ofNat 0x2029

/-- Ends a line. -/
def isBreak (c : Char) : Bool := c == '\n' || c == lineSeparator || c == paragraphSeparator

def isBlank (c : Char) : Bool := c == ' ' || c == '\t'

/-- The text ends here, or a blank or a line break stands here. -/
def atBlank : List Char → Bool
  | [] => true
  | c :: _ => isBlank c || isBreak c

/-- The text or the line ends here. -/
def atLineEnd : List Char → Bool
  | [] => true
  | c :: _ => isBreak c

/-- The code units of UTF-16, whose bytes come the high one first or the low one first. -/
def units (highFirst : Bool) : Bytes → Option (List Nat)
  | [] => some []
  | [_] => none
  | a :: b :: rest =>
    let unit := if highFirst then a.toNat * 256 + b.toNat else b.toNat * 256 + a.toNat
    (units highFirst rest).map (unit :: ·)

/-- The characters of code units; half of a pair is refused. -/
def ofUnits : List Nat → Option (List Char)
  | [] => some []
  | [u] => if 0xD800 ≤ u ∧ u < 0xE000 then none else some [Char.ofNat u]
  | u :: v :: rest =>
    if 0xD800 ≤ u ∧ u < 0xDC00 then
      if 0xDC00 ≤ v ∧ v < 0xE000 then
        (ofUnits rest).map (Char.ofNat (0x10000 + (u - 0xD800) * 0x400 + (v - 0xDC00)) :: ·)
      else none
    else if 0xDC00 ≤ u ∧ u < 0xE000 then none
    else (ofUnits (v :: rest)).map (Char.ofNat u :: ·)

/-- The characters of UTF-8. -/
def ofUtf8 (s : Bytes) : Option (List Char) :=
  (Utf8.decode s).mapM fun g => match g with | .char c => some c | .stray _ => none

/-- The characters of a text after its byte order mark. -/
def decoded : Bytes → Option (List Char)
  | 0xFF :: 0xFE :: rest => (units false rest).bind ofUnits
  | 0xFE :: 0xFF :: rest => (units true rest).bind ofUnits
  | 0xEF :: 0xBB :: 0xBF :: rest => ofUtf8 rest
  | s => ofUtf8 s

/-- Puts a line feed for every other end of a line. -/
def normalizeBreaks : List Char → List Char
  | [] => []
  | '\r' :: '\n' :: rest => '\n' :: normalizeBreaks rest
  | c :: rest => (if c = '\r' ∨ c.toNat = 0x85 then '\n' else c) :: normalizeBreaks rest

/-- The characters of a text, if it may be read at all. -/
def characters (s : Bytes) : Option (List Char) :=
  match decoded s with
  | some cs => if cs.all isAllowed then some (normalizeBreaks cs) else none
  | none => none

/-- The bytes of characters. -/
def toBytes (cs : List Char) : Bytes := cs.flatMap Utf8.encodeChar

end Stencil.Yaml
