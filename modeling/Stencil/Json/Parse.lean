import Stencil.Json.Basic

/-!
# Reading of JSON

A text is read whole or not at all. Strings take any bytes but control characters; a byte that
starts no character, and half of a surrogate pair, become the replacement character.
-/
namespace Stencil.Json

open Stencil.Text

def isSpace (c : UInt8) : Bool := c == 32 || c == 9 || c == 10 || c == 13

def skipSpace (s : Bytes) : Bytes := s.dropWhile isSpace

/-- Four hexadecimal digits. -/
def hex4 (s : Bytes) : Option Nat :=
  let ds := (s.take 4).filterMap hexValue?
  if ds.length = 4 then some (ds.foldl (fun n d => n * 16 + d) 0) else none

/-- The bytes of a code unit, or of a pair of code units that make one character, with the number
of bytes that were read. -/
def unicodeEscape (s : Bytes) : Option (Bytes × Nat) := do
  let hi ← hex4 s
  if 0xD800 ≤ hi ∧ hi < 0xE000 then
    let pair : Option Nat := do
      if hi < 0xDC00 ∧ Bytes.startsWith "\\u" (s.drop 4) then
        let lo ← hex4 (s.drop 6)
        if 0xDC00 ≤ lo ∧ lo < 0xE000 then
          some (0x10000 + (hi - 0xD800) * 0x400 + (lo - 0xDC00))
        else none
      else none
    match pair with
    | some n => some (Utf8.encodeChar (Char.ofNat n), 10)
    | none => some (Utf8.encodeChar Utf8.replacement, 4)
  else some (Utf8.encodeChar (Char.ofNat hi), 4)

/-- What a backslash and the byte `c` stand for, and how many bytes after it they take. -/
def escapeAt (c : UInt8) (rest : Bytes) : Option (Bytes × Nat) :=
  if c = ascii '"' ∨ c = ascii '\\' ∨ c = ascii '/' then some ([c], 0)
  else if c = ascii 'b' then some ([8], 0)
  else if c = ascii 'f' then some ([12], 0)
  else if c = ascii 'n' then some ([10], 0)
  else if c = ascii 'r' then some ([13], 0)
  else if c = ascii 't' then some ([9], 0)
  else if c = ascii 'u' then unicodeEscape rest
  else none

/-- The content of a string after its opening quote, with the rest after the closing one. `out`
is what was read, last byte first. -/
def stringBody (out : Bytes) : Bytes → Option (Bytes × Bytes)
  | [] => none
  | c :: cs =>
    if c = ascii '"' then some (out.reverse, cs)
    else if c < 0x20 then none
    else if c = ascii '\\' then
      match cs with
      | [] => none
      | d :: ds =>
        match escapeAt d ds with
        | some (bytes, n) => stringBody (bytes.reverse ++ out) (ds.drop n)
        | none => none
    else
      let (glyph, n) := Utf8.first c cs
      stringBody ((Utf8.encodeChar (Utf8.charOf glyph)).reverse ++ out) (cs.drop n)
termination_by s => s.length

/-- A number at the front of a text. -/
def numberText (s : Bytes) : Option (Bytes × Bytes) := do
  let body := Bytes.dropLead "-" s
  let whole := body.takeWhile isDigit
  if whole = [] ∨ (1 < whole.length ∧ whole.head? = some (ascii '0')) then none
  let rest := body.dropWhile isDigit
  let rest ←
    match rest with
    | c :: cs =>
      if c = ascii '.' then
        if (cs.takeWhile isDigit).isEmpty then none else some (cs.dropWhile isDigit)
      else some rest
    | [] => some rest
  let rest ←
    match rest with
    | c :: cs =>
      if c = ascii 'e' ∨ c = ascii 'E' then
        let ds := match cs with
          | d :: ds => if d = ascii '+' ∨ d = ascii '-' then ds else cs
          | [] => cs
        if (ds.takeWhile isDigit).isEmpty then none else some (ds.dropWhile isDigit)
      else some rest
    | [] => some rest
  return (s.take (s.length - rest.length), rest)

mutual

/-- A value at the front of a text. -/
def valueAt : (fuel : Nat) → Bytes → Option (Json × Bytes)
  | 0, _ => none
  | fuel + 1, s =>
    match skipSpace s with
    | [] => none
    | c :: cs =>
      if c = ascii '"' then (stringBody [] cs).map fun r => (.string r.1, r.2)
      else if c = ascii '[' then
        match skipSpace cs with
        | d :: ds => if d = ascii ']' then some (.array [], ds) else itemsAt fuel [] cs
        | [] => none
      else if c = openBrace then
        match skipSpace cs with
        | d :: ds => if d = closeBrace then some (.object [], ds) else membersAt fuel [] cs
        | [] => none
      else if Bytes.startsWith "true" (c :: cs) then some (.bool true, cs.drop 3)
      else if Bytes.startsWith "false" (c :: cs) then some (.bool false, cs.drop 4)
      else if Bytes.startsWith "null" (c :: cs) then some (.null, cs.drop 3)
      else (numberText (c :: cs)).map fun r => (.number r.1, r.2)

def itemsAt : (fuel : Nat) → (done : List Json) → Bytes → Option (Json × Bytes)
  | 0, _, _ => none
  | fuel + 1, done, s => do
    let (item, rest) ← valueAt fuel s
    match skipSpace rest with
    | d :: ds =>
      if d = ascii ',' then itemsAt fuel (item :: done) ds
      else if d = ascii ']' then some (.array (item :: done).reverse, ds)
      else none
    | [] => none

def membersAt : (fuel : Nat) → (done : List (Bytes × Json)) → Bytes → Option (Json × Bytes)
  | 0, _, _ => none
  | fuel + 1, done, s =>
    match skipSpace s with
    | [] => none
    | q :: qs =>
      if q = ascii '"' then do
        let (key, rest) ← stringBody [] qs
        match skipSpace rest with
        | [] => none
        | d :: ds =>
          if d = ascii ':' then do
            let (value, rest) ← valueAt fuel ds
            match skipSpace rest with
            | e :: es =>
              if e = ascii ',' then membersAt fuel ((key, value) :: done) es
              else if e = closeBrace then some (.object ((key, value) :: done).reverse, es)
              else none
            | [] => none
          else none
      else none

end

/-- How deep arrays and objects may be nested. -/
def maxHeight : Nat := 10000

/-- The tree of a whole text. -/
def parse (s : Bytes) : Option Json :=
  match valueAt (2 * s.length + 2) s with
  | some (j, rest) => if skipSpace rest = [] ∧ j.height ≤ maxHeight then some j else none
  | none => none

end Stencil.Json
