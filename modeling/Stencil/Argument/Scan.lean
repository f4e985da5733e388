import Stencil.Text.Blank
import Stencil.Text.Quoted

/-!
# Scanning of argument text

Argument text holds brackets of three kinds and string literals in three quotes. A string literal
hides everything in it; a backslash hides the next byte, except between backquotes. Two readers
share these rules: `closing` finds the bracket that ends a span, `split` cuts a list at its
top-level commas.
-/
namespace Stencil.Argument

/-- Why argument text cannot be read. -/
inductive ScanError where
  /-- No opening bracket stands at the offset. -/
  | noOpening (offset : Nat)
  /-- A string literal has no end. -/
  | unterminatedString
  /-- A closing bracket that closes nothing, or not the innermost bracket. -/
  | unexpected (bracket : UInt8) (offset : Nat)
  /-- The innermost bracket left open wants this one. -/
  | missing (bracket : UInt8)
  deriving DecidableEq, Repr

def ScanError.message : ScanError → Bytes
  | .noOpening offset => "expected opening bracket at offset " ++ Bytes.ofNat offset
  | .unterminatedString => "unterminated string literal"
  | .unexpected bracket offset =>
    "unbalanced brackets: unexpected " ++ Text.quotedByte bracket ++ " at offset "
      ++ Bytes.ofNat offset
  | .missing bracket => "unbalanced brackets: missing " ++ Text.quotedByte bracket

def isQuote (c : UInt8) : Bool := c == ascii '\'' || c == ascii '"' || c == backquote

/-- The bracket that closes an opening one. -/
def closer? (c : UInt8) : Option UInt8 :=
  if c = ascii '(' then some (ascii ')')
  else if c = ascii '[' then some (ascii ']')
  else if c = openBrace then some (closeBrace)
  else none

def isCloser (c : UInt8) : Bool := c == ascii ')' || c == ascii ']' || c == closeBrace

/-- Where a scanner stands: in plain text, inside a string literal, or right after the backslash
of one. -/
inductive Mode where
  | plain
  | string (quote : UInt8)
  | escape (quote : UInt8)
  deriving DecidableEq, Repr

/-- The mode after a byte inside a string literal. -/
def Mode.inString (quote c : UInt8) : Mode :=
  if c = ascii '\\' ∧ quote ≠ backquote then .escape quote
  else if c = quote then .plain
  else .string quote

/-- Reads on from offset `i` for the bracket that closes `top` and then each of `below`; the
answer is the offset of the last of them. -/
def closingFrom (top : UInt8) (below : List UInt8) : Mode → Nat → Bytes → Except ScanError Nat
  | .plain, _, [] => .error (.missing top)
  | .string _, _, [] => .error .unterminatedString
  | .escape _, _, [] => .error .unterminatedString
  | .string q, i, c :: cs => closingFrom top below (Mode.inString q c) (i + 1) cs
  | .escape q, i, _ :: cs => closingFrom top below (.string q) (i + 1) cs
  | .plain, i, c :: cs =>
    if isQuote c then closingFrom top below (.string c) (i + 1) cs
    else match closer? c with
      | some close => closingFrom close (top :: below) .plain (i + 1) cs
      | none =>
        if isCloser c then
          if c = top then
            match below with
            | [] => .ok i
            | next :: outer => closingFrom next outer .plain (i + 1) cs
          else .error (.unexpected c i)
        else closingFrom top below .plain (i + 1) cs

/-- The offset of the bracket that closes the one at `start`. -/
def closing (src : Bytes) (start : Nat) : Except ScanError Nat :=
  match src.drop start with
  | [] => .error (.noOpening start)
  | c :: cs =>
    match closer? c with
    | none => .error (.noOpening start)
    | some close => closingFrom close [] .plain (start + 1) cs

/-- Cuts the text from offset `i` at its top-level commas. `wanted` are the closing brackets still
wanted, innermost first, and `piece` is the piece so far, last byte first. -/
def splitFrom : (wanted : List UInt8) → Mode → Nat → (piece : Bytes) → Bytes →
    Except ScanError (List Bytes)
  | [], .plain, _, piece, [] => .ok [Text.trim piece.reverse]
  | top :: _, .plain, _, _, [] => .error (.missing top)
  | _, .string _, _, _, [] => .error .unterminatedString
  | _, .escape _, _, _, [] => .error .unterminatedString
  | wanted, .string q, i, piece, c :: cs =>
    splitFrom wanted (Mode.inString q c) (i + 1) (c :: piece) cs
  | wanted, .escape q, i, piece, c :: cs => splitFrom wanted (.string q) (i + 1) (c :: piece) cs
  | wanted, .plain, i, piece, c :: cs =>
    if isQuote c then splitFrom wanted (.string c) (i + 1) (c :: piece) cs
    else match closer? c with
      | some close => splitFrom (close :: wanted) .plain (i + 1) (c :: piece) cs
      | none =>
        if isCloser c then
          match wanted with
          | [] => .error (.unexpected c i)
          | top :: outer =>
            if c = top then splitFrom outer .plain (i + 1) (c :: piece) cs
            else .error (.unexpected c i)
        else if c = ascii ',' ∧ wanted = [] then
          (splitFrom [] .plain (i + 1) [] cs).map (Text.trim piece.reverse :: ·)
        else splitFrom wanted .plain (i + 1) (c :: piece) cs

/-- The arguments of a list, each without the blanks around it. A blank list has none; any other
has one more than it has top-level commas. -/
def split (raw : Bytes) : Except ScanError (List Bytes) :=
  if Text.isBlank raw then .ok [] else splitFrom [] .plain 0 [] raw

end Stencil.Argument

/-! ### String literals

A text is a string literal when it starts with a quote and the first unhidden occurrence of that quote is its last
byte. -/

namespace Stencil.Argument

/-- What follows the end of a string literal whose content starts here. -/
def afterLiteral (quote : UInt8) : (escaped : Bool) → Bytes → Option Bytes
  | _, [] => none
  | true, _ :: cs => afterLiteral quote false cs
  | false, c :: cs =>
    match Mode.inString quote c with
    | .plain => some cs
    | .escape _ => afterLiteral quote true cs
    | .string _ => afterLiteral quote false cs

/-- The whole text is one string literal. -/
def isLiteral : Bytes → Bool
  | [] => false
  | q :: cs => isQuote q && afterLiteral q false cs == some []

/-- Resolves the backslash escapes of a literal's content. A backslash at the very end stays. -/
def unescape : Bytes → Bytes
  | [] => []
  | [c] => [c]
  | c :: d :: rest =>
    if c = ascii '\\' then
      (if d = ascii 'n' then 10 else if d = ascii 't' then 9 else if d = ascii 'r' then 13 else d)
        :: unescape rest
    else c :: unescape (d :: rest)

/-- The content of a string literal; content between backquotes is taken as it is. -/
def unquote? : Bytes → Option Bytes
  | [] => none
  | q :: cs =>
    if isLiteral (q :: cs) then
      some (if q = backquote then cs.dropLast else unescape cs.dropLast)
    else none

end Stencil.Argument
