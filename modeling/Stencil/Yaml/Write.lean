import Stencil.Text.Base64
import Stencil.Yaml.Content
import Stencil.Yaml.Scalar
import Stencil.Yaml.Sheet

/-!
# Writing of YAML

Content as a YAML document in block style. A text of several lines is written as a literal block. A
text of one line is written plain when it reads back as that text, in double quotes when it would
read back as something else, and in single quotes when only its characters are in the way. Bytes
that are no text are written in base 64. Lines are never folded.
-/
namespace Stencil.Yaml

open Stencil.Text

/-! ### What matters about a text -/

/-- What matters about a text for the way it is written. -/
structure Traits where
  /-- Some part of it would be taken for markup. -/
  indicators : Bool := false
  breaks : Bool := false
  /-- Characters that only double quotes can hold. -/
  special : Bool := false
  tabs : Bool := false
  spaceAtEnd : Bool := false
  blankAround : Bool := false
  /-- A blank right before a line break. -/
  spaceBreak : Bool := false
  /-- A blank right after a line break. -/
  breakSpace : Bool := false

/-- Characters that a document may show as they are; none of those beyond 16 bits. -/
def isShown (c : Char) : Bool :=
  let n := c.toNat
  n == 10 || (0x20 ≤ n && n ≤ 0x7E) || (0xA0 ≤ n && n ≤ 0xFFFD && n ≠ 0xFEFF)

def isLineBreak (c : Char) : Bool := isBreak c || c == '\r' || c.toNat == 0x85

/-- The characters that mean something at the start of a scalar. -/
def leadingIndicators : List Nat :=
  (['#', ',', '[', ']', '&', '*', '!', '|', '>', '\'', '"', '%', '@'] : List Char).map Char.toNat
    ++ [0x7B, 0x7D, 0x60]

/-- Some character would be taken for markup where it stands. `before?` is the one before. -/
def hasIndicators : (before? : Option Char) → List Char → Bool
  | _, [] => false
  | before?, c :: cs =>
    let blankAfter := match cs with
      | [] => true
      | d :: _ => isBlank d
    let here := match before? with
      | none =>
        leadingIndicators.contains c.toNat || ((c == '?' || c == ':' || c == '-') && blankAfter)
      | some b =>
        (c == ':' && blankAfter) || (c == '#' && (isBlank b || isLineBreak b || b.toNat == 0))
    here || hasIndicators (some c) cs

/-- Two characters in a row with given properties. -/
def hasPair (p q : Char → Bool) : List Char → Bool
  | c :: d :: rest => (p c && q d) || hasPair p q (d :: rest)
  | _ => false

def traits (cs : List Char) : Traits where
  indicators := hasIndicators none cs || cs.take 3 == ['-', '-', '-'] || cs.take 3 == ['.', '.', '.']
  breaks := cs.any isLineBreak
  special := cs.any fun c => c != '\t' && !isShown c
  tabs := cs.contains '\t'
  spaceAtEnd := cs.getLast? == some ' '
  blankAround :=
    ((cs.head?.map fun c => c == ' ' || isLineBreak c).getD false)
      || ((cs.getLast?.map fun c => c == ' ' || isLineBreak c).getD false)
  spaceBreak := hasPair (· == ' ') isLineBreak cs
  breakSpace := hasPair isLineBreak (· == ' ') cs

/-- Apostrophes can hold the text. -/
def Traits.singleOk (t : Traits) : Bool := !t.breakSpace && !t.spaceBreak && !t.tabs && !t.special

/-- The text needs no quotes. -/
def Traits.plainOk (t : Traits) : Bool :=
  t.singleOk && !t.blankAround && !t.breaks && !t.indicators

/-- A literal block can hold the text. -/
def Traits.literalOk (t : Traits) : Bool := !t.spaceAtEnd && !t.spaceBreak && !t.special

/-- Numbers of minutes and seconds, which older readers take for numbers. -/
def isSexagesimal (s : Bytes) : Bool :=
  let body := (Decimal.takeSign s).2
  let parts := Bytes.splitOn (ascii ':') body
  match parts with
  | first :: second :: more =>
    let isPart (p : Bytes) : Bool :=
      (p.length == 1 || (p.length == 2 && (p.headD 0) ≤ ascii '5')) && p.all isDigit
    let last := (second :: more).getLastD []
    let (whole, fraction) := last.span (· ≠ ascii '.')
    let inner := (second :: more).dropLast
    !first.isEmpty && isDigit (first.headD 0) && first.all (fun c => isDigit c || c == ascii '_')
      && inner.all isPart && isPart whole
      && (fraction.drop 1).all fun c => isDigit c || c == ascii '_'
  | _ => false

/-- Words that older readers take for truth values. -/
def isOldBool (s : Bytes) : Bool :=
  (["y", "Y", "yes", "Yes", "YES", "on", "On", "ON", "n", "N", "no", "No", "NO", "off", "Off",
    "OFF"] : List Bytes).contains s

/-- An unquoted text that reads back as itself. -/
def readsAsText (s : Bytes) : Bool :=
  (readPlain true s).1 == textTag && !isOldBool s && !isSexagesimal s

/-! ### Scalars -/

/-- How a scalar is written. -/
inductive Style where
  | plain
  | single
  | double
  | literal
  deriving DecidableEq

/-- A scalar as it is written: its characters, its style, and whether it is in base 64. -/
structure Written where
  chars : List Char
  style : Style
  isBinary : Bool := false

/-- Cuts into lines of a length, each with a line break. -/
def cutLines (length : Nat) : (fuel : Nat) → List Char → List Char
  | 0, _ => []
  | _, [] => []
  | fuel + 1, cs => cs.take length ++ '\n' :: cutLines length fuel (cs.drop length)

/-- Bytes in base 64; a long text is cut into lines. -/
def binaryChars (s : Bytes) : List Char :=
  let cs := (Base64.encode s).map fun c => Char.ofNat c.toNat
  if cs.length < 70 then cs else cutLines 70 cs.length cs

/-- The style that a text asks for, before its characters are looked at. -/
def Written.ofText (s : Bytes) : Written :=
  match ofUtf8 s with
  | none =>
    let cs := binaryChars s
    { chars := cs, style := if cs.contains '\n' then .literal else .plain, isBinary := true }
  | some cs =>
    { chars := cs
      style := if cs.contains '\n' then .literal else if readsAsText s then .plain else .double }

/-- The style that the characters of a scalar allow; a key in one line cannot be a block. -/
def Written.fitted (isKey : Bool) (w : Written) : Style :=
  let t := traits w.chars
  match w.style with
  | .plain =>
    if t.plainOk ∧ !(isKey && w.chars.isEmpty) then .plain else if t.singleOk then .single else .double
  | .single => if t.singleOk then .single else .double
  | .literal => if t.literalOk ∧ !isKey then .literal else .double
  | .double => .double

/-- A scalar that may be a key in one line. -/
def Written.isSimple (w : Written) : Bool :=
  !(w.chars.any isLineBreak)
    && decide ((toBytes w.chars).length + (if w.isBinary then binaryTag.length else 0) ≤ 128)

/-- Upper case hexadecimal digits. -/
def hexChars (width n : Nat) : List Char :=
  (hexPadded width n).map fun c => (Char.ofNat c.toNat).toUpper

/-- One character between double quotes; `marked` when the text starts with a byte order mark, where
everything is written by number. -/
def escapeChar (marked : Bool) (c : Char) : List Char :=
  let n := c.toNat
  if isShown c && !isLineBreak c && c != '"' && c != '\\' && !marked then [c]
  else
    '\\' ::
      match n with
      | 0 => ['0']
      | 7 => ['a']
      | 8 => ['b']
      | 9 => ['t']
      | 10 => ['n']
      | 11 => ['v']
      | 12 => ['f']
      | 13 => ['r']
      | 27 => ['e']
      | 0x22 => ['"']
      | 0x5C => ['\\']
      | 0x85 => ['N']
      | 0xA0 => ['_']
      | 0x2028 => ['L']
      | 0x2029 => ['P']
      | _ =>
        if n ≤ 0xFF then 'x' :: hexChars 2 n
        else if n ≤ 0xFFFF then 'u' :: hexChars 4 n
        else 'U' :: hexChars 8 n

def writeDouble (cs : List Char) (s : Sheet) : Sheet :=
  let marked := cs.head? == some orderMark
  ((s.sign '"').putAll (cs.flatMap (escapeChar marked)) |>.put '"').settled

/-- Text between apostrophes; after a line break the text is indented again. -/
def writeSingle (indent : Nat) (cs : List Char) (s : Sheet) : Sheet :=
  ((go false cs (s.sign '\'')).put '\'').settled
where
  go : (broken : Bool) → List Char → Sheet → Sheet
    | _, [], s => s
    | broken, c :: cs, s =>
      if c = ' ' then go broken cs (s.put c)
      else if isLineBreak c then go true cs (s.breakWith c)
      else
        let s := if broken then s.indentTo indent else s
        let s := if c = '\'' then s.put c else s
        go false cs { s.put c with fresh := false }

/-- The lines of a literal block. -/
def writeLines (indent : Nat) : (broken : Bool) → List Char → Sheet → Sheet
  | _, [], s => s
  | broken, c :: cs, s =>
    if isLineBreak c then writeLines indent true cs (s.breakWith c)
    else
      let s := if broken then s.indentTo indent else s
      writeLines indent false cs { s.put c with fresh := false }

/-- The marks of a literal block: its indentation when the text does not show it, and what becomes
of its last line breaks. -/
def literalMarks (width : Nat) (cs : List Char) : List Char :=
  let hint := if cs.head?.any fun c => c == ' ' || isLineBreak c then
    (Bytes.ofNat width).map fun c => Char.ofNat c.toNat else []
  let chomping := match cs.reverse with
    | [] => ['-']
    | c :: rest =>
      if !isLineBreak c then ['-']
      else match rest with
        | [] => ['+']
        | d :: _ => if isLineBreak d then ['+'] else []
  hint ++ chomping

def writeLiteral (width indent : Nat) (cs : List Char) (s : Sheet) : Sheet :=
  let s := (s.sign '|').putAll (literalMarks width cs)
  writeLines indent true cs { s with spaced := true }

/-- A scalar; `indent` is that of its further lines. -/
def writeScalar (width indent : Nat) (isKey : Bool) (w : Written) (s : Sheet) : Sheet :=
  let s := if w.isBinary then (s.space.putAll "!!binary".toList).settled else s
  match w.fitted isKey with
  | .plain => ((if w.chars = [] then s else s.space).putAll w.chars).settled
  | .single => writeSingle indent w.chars s
  | .double => writeDouble w.chars s
  | .literal => writeLiteral width indent w.chars s

/-! ### Collections -/

/-- Where content is written: as the document, after a dash, or in a mapping. -/
inductive Site where
  | document
  | item
  | member
  deriving DecidableEq

/-- The indentation of what stands inside. After a dash it goes past the dash; in a mapping it is the
next multiple of the width. -/
def Site.inner (width indent : Nat) : Site → Nat
  | .document => 0
  | .item => indent + 2
  | .member => width * ((indent + width) / width)

/-- The indentation of further lines of a scalar. -/
def Site.scalarIndent (width indent : Nat) : Site → Nat
  | .document => width
  | site => site.inner width indent

/-- Content that may be a key in one line. -/
def Content.isSimple : Content → Bool
  | .atom t => decide (t.length ≤ 128)
  | .text s => (Written.ofText s).isSimple
  | .sequence items => items.isEmpty
  | .mapping entries => entries.isEmpty

mutual

/-- Writes content; `isKey` for a key in one line. -/
def Content.writeTo (width indent : Nat) (site : Site) (isKey : Bool) : Content → Sheet → Sheet
  | .atom t, s => (s.space.putAll (t.map fun c => Char.ofNat c.toNat)).settled
  | .text t, s => writeScalar width (site.scalarIndent width indent) isKey (.ofText t) s
  | .sequence [], s => ((s.sign '[').put ']').settled
  | .mapping [], s => ((s.sign (Char.ofNat 0x7B)).put (Char.ofNat 0x7D)).settled
  | .sequence items, s => writeItems width (site.inner width indent) items s
  | .mapping entries, s => writeEntries width (site.inner width indent) entries s

def writeItems (width indent : Nat) : List Content → Sheet → Sheet
  | [], s => s
  | c :: cs, s =>
    writeItems width indent cs (c.writeTo width indent .item false ((s.indentTo indent).mark '-'))

/-- The entries of a mapping. A key of several lines, or a long one, is marked and has its value in
a line of its own. -/
def writeEntries (width indent : Nat) : List (Content × Content) → Sheet → Sheet
  | [], s => s
  | (k, v) :: rest, s =>
    let s := s.indentTo indent
    let s :=
      if k.isSimple then ((k.writeTo width indent .member true s).put ':').settled
      else ((k.writeTo width indent .member false (s.mark '?')).indentTo indent).mark ':'
    writeEntries width indent rest (v.writeTo width indent .member false s)

end

/-- Content as a document whose levels are indented by `width`. -/
def write (width : Nat) (c : Content) : Bytes :=
  ((c.writeTo width 0 .document false {}).indentTo 0).text

end Stencil.Yaml
