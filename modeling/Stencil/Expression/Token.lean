import Stencil.Text.CodePoints
import Stencil.Text.Utf8

/-!
# Tokens of expressions

An expression is read as characters, a stray byte counting as the replacement character, and cut
into tokens. Blanks and comments stand between tokens and mean nothing.
-/
namespace Stencil.Expression

open Stencil.Text

/-- A token. Operators and brackets are known by their spelling. -/
inductive Token where
  | name (s : String)
  | number (s : String)
  | text (s : Bytes)
  | operator (s : String)
  | bracket (c : Char)
  deriving DecidableEq, Repr

/-- White space of every script. -/
def isSpace (c : Char) : Bool :=
  let n := c.toNat
  (9 ≤ n && n ≤ 13) || n == 0x20 || n == 0x85 || n == 0xA0 || n == 0x1680
    || (0x2000 ≤ n && n ≤ 0x200A) || n == 0x2028 || n == 0x2029 || n == 0x202F || n == 0x205F
    || n == 0x3000

def startsName (c : Char) : Bool := c == '_' || c == '$' || isLetter c

def inName (c : Char) : Bool := startsName c || isDecimalDigit c

/-- The words that are operators. -/
def wordOperators : List String :=
  ["not", "in", "or", "and", "matches", "contains", "startsWith", "endsWith", "let"]

def isHexDigit (c : Char) : Bool :=
  c.isDigit || ('a' ≤ c && c ≤ 'f') || ('A' ≤ c && c ≤ 'F')

def hexValue (c : Char) : Nat :=
  if c.isDigit then c.toNat - 48 else if 'a' ≤ c then c.toNat - 87 else c.toNat - 55

/-- Exactly `count` hexadecimal digits, as a number. -/
def takeHex : (count : Nat) → Nat → List Char → Option (Nat × List Char)
  | 0, n, cs => some (n, cs)
  | _ + 1, _, [] => none
  | count + 1, n, c :: cs => if isHexDigit c then takeHex count (n * 16 + hexValue c) cs else none

/-- The character of a code; codes that belong to none give the replacement character. -/
def charOfCode? (n : Nat) : Option Char :=
  if 0x10FFFF < n then none
  else if 0xD800 ≤ n ∧ n ≤ 0xDFFF then some Utf8.replacement
  else some (Char.ofNat n)

/-- The character that an escape of one letter stands for. -/
def simpleEscape? (quote c : Char) : Option Char :=
  if c = 'a' then some (Char.ofNat 7)
  else if c = 'b' then some (Char.ofNat 8)
  else if c = 'f' then some (Char.ofNat 12)
  else if c = 'n' then some '\n'
  else if c = 'r' then some '\r'
  else if c = 't' then some '\t'
  else if c = 'v' then some (Char.ofNat 11)
  else if c = '\\' ∨ c = quote then some c
  else none

/-- The number of hexadecimal digits that follow the letter of a numeric escape. -/
def escapeWidth? (c : Char) : Option Nat :=
  if c = 'x' then some 2 else if c = 'u' then some 4 else if c = 'U' then some 8 else none

def isOctalDigit (c : Char) : Bool := '0' ≤ c && c ≤ '7'

/-- Three octal digits of a number below 256. -/
def takeOctal : List Char → Option (Nat × List Char)
  | a :: b :: c :: cs =>
    if [a, b, c].all isOctalDigit ∧ a ≤ '3' then
      some ((hexValue a * 8 + hexValue b) * 8 + hexValue c, cs)
    else none
  | _ => none

/-- One escape after its backslash. -/
def readEscape (quote : Char) : List Char → Option (Char × List Char)
  | [] => none
  | c :: cs =>
    match simpleEscape? quote c with
    | some d => some (d, cs)
    | none => do
      let (n, rest) ←
        match escapeWidth? c with
        | some width => takeHex width 0 cs
        | none => takeOctal (c :: cs)
      return (← charOfCode? n, rest)

/-- The content of a quoted string and what follows its closing quote. A line break ends no
string; a carriage return stands for one. -/
def readString (quote : Char) : (fuel : Nat) → List Char → Option (Bytes × List Char)
  | 0, _ => none
  | _ + 1, [] => none
  | fuel + 1, c :: cs =>
    if c = quote then some ([], cs)
    else if c = '\n' then none
    else if c = '\\' then do
      let (d, rest) ← readEscape quote cs
      let (s, after) ← readString quote fuel rest
      return (Utf8.encodeChar d ++ s, after)
    else do
      let (s, after) ← readString quote fuel cs
      return (Utf8.encodeChar (if c = '\r' then '\n' else c) ++ s, after)

/-- The content of a raw string and what follows it. -/
def readRaw (quote : Char) : List Char → Option (Bytes × List Char)
  | [] => none
  | c :: cs =>
    if c = quote then some ([], cs)
    else (readRaw quote cs).map fun r => (Utf8.encodeChar c ++ r.1, r.2)

/-- A run of digits and underscores. -/
def digitRun (isDigit : Char → Bool) (cs : List Char) : List Char × List Char :=
  cs.span fun c => isDigit c || c == '_'

/-- The digits that a number may have, and its leading mark. -/
def numberLead : List Char → (Char → Bool) × List Char × List Char
  | '0' :: c :: cs =>
    if c = 'x' ∨ c = 'X' then (isHexDigit, ['0', c], cs)
    else if c = 'o' ∨ c = 'O' then (isOctalDigit, ['0', c], cs)
    else if c = 'b' ∨ c = 'B' then (fun d => d == '0' || d == '1', ['0', c], cs)
    else (Char.isDigit, ['0'], c :: cs)
  | cs => (Char.isDigit, [], cs)

/-- The fraction of a number; two points are a range instead. -/
def readFraction (isDigit : Char → Bool) : List Char → List Char × List Char
  | '.' :: '.' :: cs => ([], '.' :: '.' :: cs)
  | '.' :: cs =>
    let (ds, rest) := digitRun isDigit cs
    ('.' :: ds, rest)
  | cs => ([], cs)

/-- The exponent of a number. -/
def readExponentPart (isDigit : Char → Bool) : List Char → List Char × List Char
  | [] => ([], [])
  | c :: cs =>
    if c = 'e' ∨ c = 'E' then
      let (sign, rest) : List Char × List Char :=
        match cs with
        | s :: more => if s = '+' ∨ s = '-' then ([s], more) else ([], cs)
        | [] => ([], [])
      let (ds, rest) := digitRun isDigit rest
      (c :: sign ++ ds, rest)
    else ([], c :: cs)

/-- A number as written; a name must not follow at once. -/
def readNumber (cs : List Char) : Option (List Char × List Char) :=
  let (isDigit, lead, rest) := numberLead cs
  let (whole, rest) := digitRun isDigit rest
  let (fraction, rest) := readFraction isDigit rest
  let (exponent, rest) :=
    match fraction, rest with
    | [], '.' :: _ => (([] : List Char), rest)
    | _, _ => readExponentPart isDigit rest
  match rest with
  | c :: _ => if inName c then none else some (lead ++ whole ++ fraction ++ exponent, rest)
  | [] => some (lead ++ whole ++ fraction ++ exponent, rest)

/-- What follows a comment of several lines. -/
def afterComment : List Char → Option (List Char)
  | [] => none
  | '*' :: '/' :: cs => some cs
  | _ :: cs => afterComment cs

/-- An operator that starts with `c`, extended by the next character when it is among `more`. -/
def extended (c : Char) (more : List Char) (cs : List Char) : Token × List Char :=
  match cs with
  | d :: rest => if d ∈ more then (.operator (String.ofList [c, d]), rest) else (.operator c.toString, cs)
  | [] => (.operator c.toString, cs)

/-- Reads the token, if any, that starts with `c`. -/
def tokenAt (c : Char) (cs : List Char) : Option (Option Token × List Char) :=
  if isSpace c then some (none, cs)
  else if c = '\'' ∨ c = '"' then
    (readString c (cs.length + 1) cs).map fun r => (some (.text r.1), r.2)
  else if c.toNat = 0x60 then (readRaw c cs).map fun r => (some (.text r.1), r.2)
  else if c.isDigit then
    (readNumber (c :: cs)).map fun r => (some (.number (String.ofList r.1)), r.2)
  else if c = '.' then
    match cs with
    | '.' :: rest => some (some (.operator ".."), rest)
    | d :: _ =>
      if d.isDigit then
        (readNumber cs).map fun r => (some (.number (String.ofList ('.' :: r.1))), r.2)
      else some (some (.operator "."), cs)
    | [] => some (some (.operator "."), cs)
  else if c = '?' then
    let (t, rest) := extended c ['.', '?'] cs
    some (some t, rest)
  else if c = '/' then
    match cs with
    | '/' :: rest => some (none, rest.dropWhile (· ≠ '\n'))
    | '*' :: rest => (afterComment rest).map fun after => (none, after)
    | _ => some (some (.operator "/"), cs)
  else if c = '|' then
    let (t, rest) := extended c ['|'] cs
    some (some t, rest)
  else if c = ':' then
    let (t, rest) := extended c [':'] cs
    some (some t, rest)
  else if c ∈ ['(', '[', ')', ']'] ∨ c.toNat = 0x7B ∨ c.toNat = 0x7D then
    some (some (.bracket c), cs)
  else if c ∈ [',', ';', '%', '+', '-', '^'] then some (some (.operator c.toString), cs)
  else if c ∈ ['&', '!', '=', '*', '<', '>'] then
    let (t, rest) := extended c ['&', '=', '*'] cs
    some (some t, rest)
  else if inName c then
    let (word, rest) := cs.span inName
    let s := String.ofList (c :: word)
    some (some (if s ∈ wordOperators then .operator s else .name s), rest)
  else none

/-- The tokens of a text; none when some part of it is no token. -/
def tokensFrom : (fuel : Nat) → List Char → Option (List Token)
  | _, [] => some []
  | 0, _ :: _ => none
  | fuel + 1, c :: cs => do
    let (token, rest) ← tokenAt c cs
    let tokens ← tokensFrom fuel rest
    return token.toList ++ tokens

/-- The tokens of an expression. -/
def tokens (source : Bytes) : Option (List Token) :=
  let cs := (Utf8.decode source).map Utf8.charOf
  tokensFrom cs.length cs

end Stencil.Expression
