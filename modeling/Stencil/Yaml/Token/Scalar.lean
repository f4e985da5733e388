import Stencil.Yaml.Token

/-!
# YAML scalars

Readers for scalars of the five styles. A reader takes the place where the content starts and gives
the content with the place after the scalar; `none` means malformed text.

Inside plain and quoted scalars line breaks fold: one becomes a space, and of more the first is
dropped.
-/
namespace Stencil.Yaml

/-- What a scalar holds and where it ends. -/
structure Lexeme where
  text : Bytes
  /-- Line breaks were passed after the last character. -/
  crossed : Bool := false
  after : Cursor

/-- Blanks and line breaks between two parts of a scalar. -/
inductive Gap where
  /-- Blanks in one line, the last first. -/
  | blanks (cs : List Char)
  /-- The first line break, unless a backslash hid it, and the further ones, the last first. -/
  | lines (first : Option Char) (more : List Char)

namespace Gap

def none : Gap := .blanks []

def isNone : Gap → Bool
  | .blanks [] => true
  | _ => false

def crossed : Gap → Bool
  | .blanks _ => false
  | .lines _ _ => true

/-- A gap with one more blank or line break. Blanks around line breaks do not count. -/
def add (c : Char) : Gap → Gap
  | .blanks cs => if isBreak c then .lines (some c) [] else .blanks (c :: cs)
  | .lines first more => .lines first (if isBreak c then c :: more else more)

/-- What a gap stands for, the last character first. -/
def folded : Gap → List Char
  | .blanks cs => cs
  | .lines Option.none more => more
  | .lines (some c) more =>
    if c = '\n' then if more = [] then [' '] else more else more ++ [c]

end Gap

/-- The line and column after a character. -/
def stepLine (c : Char) (line : Nat) : Nat := if isBreak c then line + 1 else line

def stepColumn (c : Char) (column : Nat) : Nat := if isBreak c then 0 else column + 1

/-! ### Plain scalars -/

/-- A plain scalar ends before this character. -/
def endsPlain (inFlow : Bool) (c : Char) (rest : List Char) : Bool :=
  (c == ':' && atBlank rest)
    || (inFlow && (c == ',' || c == '?' || c == '[' || c == ']' || c.toNat == 0x7B || c.toNat == 0x7D))

/-- Reads on in a plain scalar whose lines are indented to `indent` at least. `out` is what was
read, the last character first, and `gap` what came since. -/
def plainFrom (inFlow : Bool) (indent : Int) :
    (line column : Nat) → (out : List Char) → Gap → List Char → Option Lexeme
  | line, column, out, gap, [] => some ⟨toBytes out.reverse, gap.crossed, ⟨[], line, column⟩⟩
  | line, column, out, gap, c :: cs =>
    if isBlank c || isBreak c then
      if c = '\t' ∧ gap.crossed ∧ (column : Int) < indent then none
      else plainFrom inFlow indent (stepLine c line) (stepColumn c column) out (gap.add c) cs
    else if endsPlain inFlow c cs
        || (!gap.isNone && ((!inFlow && decide ((column : Int) < indent)) || c == '#'
          || (column == 0 && atDocumentMark (c :: cs)))) then
      some ⟨toBytes out.reverse, gap.crossed, ⟨c :: cs, line, column⟩⟩
    else plainFrom inFlow indent line (column + 1) (c :: (gap.folded ++ out)) .none cs

/-- A plain scalar can start here. -/
def startsPlain (inFlow : Bool) (c : Char) (rest : List Char) : Bool :=
  if c = '-' then
    match rest with
    | d :: _ => !isBlank d
    | [] => true
  else if c = '?' ∨ c = ':' then !inFlow && !atBlank rest
  else !(isBlank c || isBreak c || [',', '[', ']', '#', '&', '*', '!', '|', '>', '\'', '"', '%', '@',
    Char.ofNat 0x60, Char.ofNat 0x7B, Char.ofNat 0x7D].contains c)

/-! ### Quoted scalars -/

/-- Reads on between apostrophes; two of them stand for one. -/
def singleFrom : (line column : Nat) → (out : List Char) → Gap → List Char → Option Lexeme
  | _, _, _, _, [] => none
  | line, column, out, gap, c :: cs =>
    if isBlank c || isBreak c then
      singleFrom (stepLine c line) (stepColumn c column) out (gap.add c) cs
    else if column = 0 ∧ gap.crossed ∧ atDocumentMark (c :: cs) then none
    else if c = '\'' then
      match cs with
      | '\'' :: rest => singleFrom line (column + 2) (c :: (gap.folded ++ out)) .none rest
      | _ => some { text := toBytes (gap.folded ++ out).reverse, after := ⟨cs, line, column + 1⟩ }
    else singleFrom line (column + 1) (c :: (gap.folded ++ out)) .none cs

/-- The character that a backslash and a letter stand for. -/
def escaped? (c : Char) : Option Char :=
  match c with
  | '0' => some (Char.ofNat 0)
  | 'a' => some (Char.ofNat 7)
  | 'b' => some (Char.ofNat 8)
  | 't' => some '\t'
  | '\t' => some '\t'
  | 'n' => some '\n'
  | 'v' => some (Char.ofNat 11)
  | 'f' => some (Char.ofNat 12)
  | 'r' => some '\r'
  | 'e' => some (Char.ofNat 27)
  | ' ' => some ' '
  | '"' => some '"'
  | '\'' => some '\''
  | '\\' => some '\\'
  | 'N' => some (Char.ofNat 0x85)
  | '_' => some (Char.ofNat 0xA0)
  | 'L' => some lineSeparator
  | 'P' => some paragraphSeparator
  | _ => none

/-- How many hexadecimal digits follow a backslash and a letter. -/
def codeLength? (c : Char) : Option Nat :=
  match c with
  | 'x' => some 2
  | 'u' => some 4
  | 'U' => some 8
  | _ => none

/-- The value of a hexadecimal digit. -/
def hexOf? (c : Char) : Option Nat := if c.toNat < 0x80 then hexValue? (ascii c) else none

/-- Where a reader of a double quoted scalar stands: in its content, after a backslash, or among the
digits of a code, of which `left` are still to come. -/
inductive Escape where
  | none
  | started
  | code (left value : Nat)

/-- Reads on between quotes. -/
def doubleFrom :
    (line column : Nat) → (out : List Char) → Gap → Escape → List Char → Option Lexeme
  | _, _, _, _, _, [] => none
  | line, column, out, _, .code left value, c :: cs =>
    match hexOf? c with
    | Option.none => none
    | some d =>
      let n := value * 16 + d
      if 1 < left then doubleFrom line (column + 1) out .none (.code (left - 1) n) cs
      else if n.isValidChar then
        doubleFrom line (column + 1) (Char.ofNat n :: out) .none .none cs
      else none
  | line, column, out, _, .started, c :: cs =>
    if isBreak c then doubleFrom (line + 1) 0 out (.lines Option.none []) .none cs
    else match escaped? c, codeLength? c with
      | some d, _ => doubleFrom line (column + 1) (d :: out) .none .none cs
      | Option.none, some n => doubleFrom line (column + 1) out .none (.code n 0) cs
      | Option.none, Option.none => none
  | line, column, out, gap, .none, c :: cs =>
    if isBlank c || isBreak c then
      doubleFrom (stepLine c line) (stepColumn c column) out (gap.add c) .none cs
    else if column = 0 ∧ gap.crossed ∧ atDocumentMark (c :: cs) then none
    else if c = '"' then
      some { text := toBytes (gap.folded ++ out).reverse, after := ⟨cs, line, column + 1⟩ }
    else if c = '\\' then doubleFrom line (column + 1) (gap.folded ++ out) .none .started cs
    else doubleFrom line (column + 1) (c :: (gap.folded ++ out)) .none .none cs

/-! ### Block scalars -/

/-- What becomes of the line breaks at the end of a block scalar. -/
inductive Chomping where
  | strip
  | clip
  | keep

/-- The marks after the sign of a block scalar. -/
structure BlockHeader where
  chomping : Chomping := .clip
  /-- How far the content is indented; nothing when it shows itself. -/
  increment : Nat := 0

def chomping? (c : Char) : Option Chomping :=
  if c = '+' then some .keep else if c = '-' then some .strip else none

def increment? (c : Char) : Option Nat := if c.isDigit then some (c.toNat - 48) else none

/-- Reads the marks of a block scalar, which come in any order. -/
def blockHeader (s : List Char) : BlockHeader × List Char :=
  match s with
  | [] => ({}, [])
  | c :: cs =>
    match chomping? c, increment? c with
    | some chomping, _ =>
      match cs with
      | d :: ds =>
        match increment? d with
        | some increment => ({ chomping, increment }, ds)
        | Option.none => ({ chomping }, cs)
      | [] => ({ chomping }, [])
    | Option.none, some increment =>
      match cs with
      | d :: ds =>
        match chomping? d with
        | some chomping => ({ chomping, increment }, ds)
        | Option.none => ({ increment }, cs)
      | [] => ({ increment }, [])
    | Option.none, Option.none => ({}, s)

/-- A mark says that the content is not indented at all. -/
def hasZeroIncrement (s : List Char) : Bool :=
  s.head? == some '0' || (s.head?.any (chomping? · |>.isSome) && (s.drop 1).head? == some '0')

/-- Passes the indentation of a block scalar and its blank lines. With `indent = 0` all spaces
count as indentation. Gives the greatest column that was reached, the line breaks, the last first,
and the place. -/
def blockBreaks (indent : Nat) :
    (greatest : Nat) → (line column : Nat) → (breaks : List Char) → List Char →
      Option (Nat × List Char × Cursor)
  | greatest, line, column, breaks, [] => some (max greatest column, breaks, ⟨[], line, column⟩)
  | greatest, line, column, breaks, c :: cs =>
    let inIndent := decide (indent = 0 ∨ column < indent)
    if inIndent ∧ c = ' ' then blockBreaks indent greatest line (column + 1) breaks cs
    else if inIndent ∧ c = '\t' then none
    else if isBreak c then blockBreaks indent (max greatest column) (line + 1) 0 (c :: breaks) cs
    else some (max greatest column, breaks, ⟨c :: cs, line, column⟩)

/-- What was read of a block scalar, everything with the last character first. -/
structure BlockText where
  out : List Char := []
  /-- The line break after the last line. -/
  lead : List Char := []
  /-- The line breaks of the blank lines after it. -/
  trail : List Char := []
  /-- The last line starts with a blank. -/
  blankStart : Bool := false

/-- The text up to a line that starts with a blank or not. Line breaks fold between two lines that
do not. -/
def BlockText.joined (t : BlockText) (literal startsBlank : Bool) : List Char :=
  if !literal && !t.blankStart && !startsBlank && t.lead == ['\n'] then
    if t.trail = [] then ' ' :: t.out else t.trail ++ t.out
  else t.trail ++ (t.lead ++ t.out)

/-- The lines of a block scalar. -/
def blockLines (literal : Bool) (indent : Nat) :
    (fuel : Nat) → BlockText → Cursor → Option (BlockText × Cursor)
  | 0, _, _ => none
  | fuel + 1, t, here =>
    match here.rest with
    | [] => some (t, here)
    | c :: _ =>
      if here.column ≠ indent then some (t, here)
      else do
        let line := here.rest.takeWhile fun d => !isBreak d
        let stop := here.toLineEnd
        let start := stop.nextLine
        let (_, trail, next) ← blockBreaks indent 0 start.line start.column [] start.rest
        blockLines literal indent fuel
          { out := line.reverse ++ t.joined literal (isBlank c)
            lead := stop.rest.take 1
            trail
            blankStart := isBlank c } next

/-- A block scalar after its sign; `outer` is the indentation of what it stands in. -/
def blockScalar (literal : Bool) (outer : Int) (start : Cursor) : Option Lexeme := do
  if hasZeroIncrement start.rest then none
  let (header, rest) := blockHeader start.rest
  let stop := ((start.moveTo rest).moveTo (rest.dropWhile isBlank)).skipComment
  if !atLineEnd stop.rest then none
  let first := stop.nextLine
  let given := if header.increment = 0 then 0 else (max outer 0).toNat + header.increment
  let (greatest, trail, here) ← blockBreaks given 0 first.line first.column [] first.rest
  let indent := if given = 0 then max (max greatest (outer + 1).toNat) 1 else given
  let (t, after) ← blockLines literal indent (here.rest.length + 1) { trail } here
  let text := match header.chomping with
    | .strip => t.out
    | .clip => t.lead ++ t.out
    | .keep => t.trail ++ (t.lead ++ t.out)
  return { text := toBytes text.reverse, crossed := true, after }

end Stencil.Yaml
