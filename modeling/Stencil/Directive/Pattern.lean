import Stencil.Directive.Regex

/-!
# Name patterns

Patterns that names are matched with: how they are written, and when they match a whole name.
-/
namespace Stencil.Directive

open Stencil.Text

/-- A pattern with the text it was written as. -/
structure Pattern where
  source : Bytes
  regex : Regex

/-- The text of a group in a match; empty for a group that took no part. -/
def groupText (name : List Glyph) (t : RegexThread) (index : Nat) : Bytes :=
  match Assoc.get? (2 * index) t.slots, Assoc.get? (2 * index + 1) t.slots with
  | some start, some stop => ((name.take stop).drop start).flatMap Utf8.encode
  | _, _ => []

/-- The groups of the preferred match at the start of a name, if that match is the whole name: the
name itself, then the text of each group. -/
def Pattern.wholeMatch (p : Pattern) (name : Bytes) : Option (List Bytes) :=
  let glyphs := Utf8.decode name
  match p.regex.findAtStart (glyphs.map Utf8.charOf).toArray with
  | some t =>
    if t.place = glyphs.length then
      some (name :: (List.range p.regex.groupCount).map fun i => groupText glyphs t (i + 1))
    else none
  | none => none

/-! ### Reading of patterns -/

/-- The last code point. -/
def lastCodePoint : Nat := 0x10FFFF

/-- The code points outside of ranges that come in order, from `low` on. -/
def outside (low : Nat) : List (Nat × Nat) → List (Nat × Nat)
  | [] => [(low, lastCodePoint)]
  | (a, b) :: rest => if low < a then (low, a - 1) :: outside (b + 1) rest else outside (b + 1) rest

/-- The ranges of a class letter. -/
def classRanges (c : Char) : Option (List (Nat × Nat)) :=
  let digit := [(48, 57)]
  let word := [(48, 57), (65, 90), (95, 95), (97, 122)]
  let space := [(9, 10), (12, 13), (32, 32)]
  match c with
  | 'd' => some digit
  | 'D' => some (outside 0 digit)
  | 'w' => some word
  | 'W' => some (outside 0 word)
  | 's' => some space
  | 'S' => some (outside 0 space)
  | _ => none

/-- The ranges of a class that has a name. -/
def namedRanges (name : String) : Option (List (Nat × Nat)) :=
  match name with
  | "alnum" => some [(48, 57), (65, 90), (97, 122)]
  | "alpha" => some [(65, 90), (97, 122)]
  | "ascii" => some [(0, 127)]
  | "blank" => some [(9, 9), (32, 32)]
  | "cntrl" => some [(0, 31), (127, 127)]
  | "digit" => some [(48, 57)]
  | "graph" => some [(33, 126)]
  | "lower" => some [(97, 122)]
  | "print" => some [(32, 126)]
  | "punct" => some [(33, 47), (58, 64), (91, 96), (123, 126)]
  | "space" => some [(9, 13), (32, 32)]
  | "upper" => some [(65, 90)]
  | "word" => some [(48, 57), (65, 90), (95, 95), (97, 122)]
  | "xdigit" => some [(48, 57), (65, 70), (97, 102)]
  | _ => none

/-- The value of a digit in base 16. -/
def hexDigit? (c : Char) : Option Nat :=
  if c.toNat < 128 then hexValue? (ascii c) else none

def isOctalDigit (c : Char) : Bool := '0' ≤ c && c ≤ '7'

/-- The code point that digits in base 16 write, up to a closing brace. -/
def bracedCode (n : Nat) : List Char → Option (Nat × List Char)
  | [] => none
  | c :: cs =>
    if c = '\x7d' then some (n, cs)
    else match hexDigit? c with
      | some d => if n * 16 + d ≤ lastCodePoint then bracedCode (n * 16 + d) cs else none
      | none => none

/-- The code point that is written after a backslash. -/
def escapedCode : List Char → Option (Nat × List Char)
  | [] => none
  | 'a' :: cs => some (7, cs)
  | 'f' :: cs => some (12, cs)
  | 'n' :: cs => some (10, cs)
  | 'r' :: cs => some (13, cs)
  | 't' :: cs => some (9, cs)
  | 'v' :: cs => some (11, cs)
  | 'x' :: '\x7b' :: d :: cs => if d = '\x7d' then none else bracedCode 0 (d :: cs)
  | 'x' :: a :: b :: cs => do return ((← hexDigit? a) * 16 + (← hexDigit? b), cs)
  | c :: cs =>
    if isOctalDigit c then
      let more := (cs.take 2).takeWhile isOctalDigit
      if c ≠ '0' ∧ more = [] then none
      else some ((c :: more).foldl (fun n d => n * 8 + (d.toNat - 48)) 0, cs.drop more.length)
    else if c.toNat < 128 ∧ ¬ c.isAlphanum then some (c.toNat, cs)
    else none

/-- One code point of a class. -/
def classCode : List Char → Option (Nat × List Char)
  | [] => none
  | '\\' :: cs => escapedCode cs
  | c :: cs => some (c.toNat, cs)

/-- The ranges of a class that stands for several code points. -/
def classGroup : List Char → Option (List (Nat × Nat) × List Char)
  | '\\' :: c :: cs => (classRanges c).map fun ranges => (ranges, cs)
  | '[' :: ':' :: cs =>
    let (inner, rest) := cs.span (· != ':')
    match rest with
    | ':' :: ']' :: rest =>
      match inner with
      | '^' :: name => (namedRanges (String.ofList name)).map fun ranges => (outside 0 ranges, rest)
      | name => (namedRanges (String.ofList name)).map fun ranges => (ranges, rest)
    | _ => none
  | _ => none

/-- The ranges of the items of a class, up to the closing bracket. -/
def classItems : (fuel : Nat) → (first : Bool) → List Char →
    Option (List (Nat × Nat) × List Char)
  | 0, _, _ => none
  | _ + 1, _, [] => none
  | fuel + 1, first, c :: cs =>
    if c = ']' ∧ ¬ first then some ([], cs)
    else
      match classGroup (c :: cs) with
      | some (ranges, rest) => do
        let (more, rest) ← classItems fuel false rest
        return (ranges ++ more, rest)
      | none => do
        let (low, rest) ← classCode (c :: cs)
        let (high, rest) ←
          match rest with
          | '-' :: d :: ds => if d = ']' then some (low, rest) else classCode (d :: ds)
          | _ => some (low, rest)
        if high < low then none
        else do
          let (more, rest) ← classItems fuel false rest
          return ((low, high) :: more, rest)

/-- The number that digits write. -/
def countOf (digits : List Char) : Nat := digits.foldl (fun n d => n * 10 + (d.toNat - 48)) 0

/-- The bounds of a repetition in braces, from behind the opening one. -/
def bounds (cs : List Char) : Option ((Nat × Option Nat) × List Char) :=
  let (least, rest) := cs.span Char.isDigit
  if least = [] ∨ (least.head? = some '0' ∧ 1 < least.length) then none
  else
    match rest with
    | '\x7d' :: rest => some ((countOf least, some (countOf least)), rest)
    | ',' :: '\x7d' :: rest => some ((countOf least, none), rest)
    | ',' :: rest =>
      let (most, rest) := rest.span Char.isDigit
      match rest with
      | '\x7d' :: rest =>
        if most = [] ∨ (most.head? = some '0' ∧ 1 < most.length) then none
        else some ((countOf least, some (countOf most)), rest)
      | _ => none
    | _ => none

/-- The most repetitions that may be counted. -/
def mostRepetitions : Nat := 1000

/-- Whether a question mark makes a repetition prefer fewer times. -/
def preference : List Char → Bool × List Char
  | '?' :: cs => (false, cs)
  | cs => (true, cs)

/-- The repetition mark after an item, applied to the item. A mark after a mark is refused. -/
def repetition (r : Regex) (cs : List Char) : Option (Regex × List Char) :=
  let marked (kind : Repetition) (rest : List Char) : Regex × List Char :=
    let (greedy, rest) := preference rest
    (.repeated kind greedy r, rest)
  let found : Option (Option (Regex × List Char)) :=
    match cs with
    | '*' :: rest => some (some (marked .star rest))
    | '+' :: rest => some (some (marked .plus rest))
    | '?' :: rest => some (some (marked .quest rest))
    | '\x7b' :: rest =>
      match bounds rest with
      | some ((least, most), rest) =>
        if mostRepetitions < least ∨ most.any (fun m => m < least || mostRepetitions < m) then some none
        else
          let (greedy, rest) := preference rest
          some (some (Regex.counted greedy r least most, rest))
      | none => none
    | _ => none
  match found with
  | none => some (r, cs)
  | some none => none
  | some (some (repeated, rest)) =>
    match rest with
    | '*' :: _ => none
    | '+' :: _ => none
    | '?' :: _ => none
    | '\x7b' :: more => if (bounds more).isSome then none else some (repeated, rest)
    | _ => some (repeated, rest)

/-- What follows the opening of a group: whether the group has a number, and its inside. -/
def groupOpening : List Char → Option (Bool × List Char)
  | '?' :: ':' :: inner => some (false, inner)
  | '?' :: 'P' :: '<' :: rest => named rest
  | '?' :: '<' :: rest => named rest
  | '?' :: _ => none
  | inner => some (true, inner)
where
  named (rest : List Char) : Option (Bool × List Char) :=
    let (name, rest) := rest.span Regex.isWordChar
    match name, rest with
    | _ :: _, '>' :: inner => some (true, inner)
    | _, _ => none

mutual

/-- Alternatives. `n` groups are open or closed already. -/
def readAlt : (fuel n : Nat) → List Char → Option (Regex × Nat × List Char)
  | 0, _, _ => none
  | fuel + 1, n, cs => do
    let (left, n, rest) ← readSeq fuel n cs
    match rest with
    | '|' :: more => do
      let (right, n, rest) ← readAlt fuel n more
      pure (.alt left right, n, rest)
    | _ => pure (left, n, rest)

/-- A sequence of items. -/
def readSeq : (fuel n : Nat) → List Char → Option (Regex × Nat × List Char)
  | 0, _, _ => none
  | _ + 1, n, [] => some (.empty, n, [])
  | fuel + 1, n, c :: cs =>
    if c = '|' ∨ c = ')' then some (.empty, n, c :: cs)
    else do
      let (item, n, rest) ← readItem fuel n (c :: cs)
      let (item, rest) ← repetition item rest
      let (more, n, rest) ← readSeq fuel n rest
      pure (.seq item more, n, rest)

/-- One item without its repetition mark. -/
def readItem : (fuel n : Nat) → List Char → Option (Regex × Nat × List Char)
  | 0, _, _ => none
  | _ + 1, _, [] => none
  | fuel + 1, n, c :: cs =>
    match c with
    | '(' => do
      let (numbered, inner) ← groupOpening cs
      let index := n + 1
      let (r, n, rest) ← readAlt fuel (if numbered then index else n) inner
      match rest with
      | ')' :: rest => pure (if numbered then .group index r else r, n, rest)
      | _ => none
    | '[' =>
      match cs with
      | '^' :: inner => (classItems fuel true inner).map fun r => (.set true r.1, n, r.2)
      | _ => (classItems fuel true cs).map fun r => (.set false r.1, n, r.2)
    | '.' => some (Regex.dot, n, cs)
    | '^' => some (.anchor .start, n, cs)
    | '$' => some (.anchor .stop, n, cs)
    | '\\' =>
      match cs with
      | 'A' :: ds => some (.anchor .start, n, ds)
      | 'z' :: ds => some (.anchor .stop, n, ds)
      | 'b' :: ds => some (.anchor (.boundary true), n, ds)
      | 'B' :: ds => some (.anchor (.boundary false), n, ds)
      | _ =>
        match classGroup (c :: cs) with
        | some (ranges, ds) => some (.set false ranges, n, ds)
        | none => (escapedCode cs).map fun e => (Regex.literal e.1, n, e.2)
    | '*' => none
    | '+' => none
    | '?' => none
    | _ => if c = '\x7b' ∧ (bounds cs).isSome then none else some (Regex.literal c.toNat, n, cs)

end

/-- Reads a pattern; `none` when it is malformed. -/
def Pattern.read (source : Bytes) : Option Pattern :=
  let chars := (Utf8.decode source).map Utf8.charOf
  if Utf8.isValid source then
    match readAlt (4 * chars.length + 4) 0 chars with
    | some (r, _, []) => some ⟨source, r⟩
    | _ => none
  else none

end Stencil.Directive
