import Stencil.Yaml.Token

/-!
# YAML properties and directives

Anchors, aliases and tags, which stand before a node, and the directives before a document.
-/
namespace Stencil.Yaml

/-- Characters of the names of anchors and handles. -/
def isWord (c : Char) : Bool := c.isAlphanum || c == '_' || c == '-'

/-- The name of an anchor or alias; a blank or one of certain signs follows it. -/
def anchorName (s : List Char) : Option (Bytes × List Char) :=
  let name := s.takeWhile isWord
  let rest := s.dropWhile isWord
  let ends := atBlank rest || (rest.head?.any fun c =>
    ['?', ':', ',', ']', '%', '@', Char.ofNat 0x60, Char.ofNat 0x7D].contains c)
  if name ≠ [] ∧ ends then some (toBytes name, rest) else none

/-- Characters of tags apart from the percent sign. -/
def isTagChar (c : Char) : Bool :=
  isWord c || [';', '/', '?', ':', '@', '&', '=', '+', '$', ',', '.', '!', '~', '*', '\'', '(', ')',
    '[', ']'].contains c

/-- How many bytes follow the first byte of a character. -/
def tailLength? (b : Nat) : Option Nat :=
  if b < 0x80 then some 0
  else if 0xC0 ≤ b ∧ b < 0xE0 then some 1
  else if 0xE0 ≤ b ∧ b < 0xF0 then some 2
  else if 0xF0 ≤ b ∧ b < 0xF8 then some 3
  else none

/-- The text of a tag. A byte may be written as a percent sign and two digits; `wanted` bytes of
the last character are still to come. -/
def tagText : (wanted : Nat) → (out : Bytes) → List Char → Option (Bytes × List Char)
  | 0, out, [] => some (out, [])
  | _ + 1, _, [] => none
  | wanted, out, c :: cs =>
    if c = '%' then
      match cs with
      | a :: b :: rest =>
        let digit (d : Char) : Option Nat := if d.toNat < 0x80 then hexValue? (ascii d) else none
        match digit a, digit b with
        | some x, some y =>
          let n := x * 16 + y
          match wanted with
          | 0 =>
            match tailLength? n with
            | some more => tagText more (out ++ [n.toUInt8]) rest
            | none => none
          | wanted + 1 =>
            if 0x80 ≤ n ∧ n < 0xC0 then tagText wanted (out ++ [n.toUInt8]) rest else none
        | _, _ => none
      | _ => none
    else if wanted ≠ 0 then none
    else if isTagChar c then tagText 0 (out ++ toBytes [c]) cs
    else some (out, c :: cs)

/-- The text of a tag, which must not be empty. -/
def someTagText (s : List Char) : Option (Bytes × List Char) :=
  match tagText 0 [] s with
  | some ([], _) => none
  | r => r

/-- An exclamation mark, a word and, if there is one, another exclamation mark. -/
def tagHandle (s : List Char) : Option (List Char × List Char) :=
  match s with
  | '!' :: cs =>
    let word := cs.takeWhile isWord
    match cs.dropWhile isWord with
    | '!' :: rest => some ('!' :: (word ++ ['!']), rest)
    | rest => some ('!' :: word, rest)
  | _ => none

/-- A tag: a whole one between angle brackets, a handle with a suffix, a suffix alone, or the mark
alone, which says nothing. A blank follows it. -/
def tagToken (s : List Char) : Option (Token × List Char) := do
  let (token, rest) ←
    if s.take 2 = ['!', '<'] then
      match someTagText (s.drop 2) with
      | some (text, '>' :: rest) => some (Token.tag [] text, rest)
      | _ => none
    else do
      let (handle, rest) ← tagHandle s
      if 1 < handle.length ∧ handle.getLast? = some '!' then
        let (suffix, rest) ← someTagText rest
        some (Token.tag (toBytes handle) suffix, rest)
      else
        let (suffix, rest) ← tagText 0 (toBytes (handle.drop 1)) rest
        if suffix = [] then some (Token.tag [] "!", rest) else some (Token.tag "!" suffix, rest)
  if atBlank rest then some (token, rest) else none

/-- A number of a version, of at most two digits. -/
def versionNumber (s : List Char) : Option (Nat × List Char) :=
  let ds := s.takeWhile Char.isDigit
  if ds ≠ [] ∧ ds.length ≤ 2 then
    some (ds.foldl (fun n c => n * 10 + (c.toNat - 48)) 0, s.dropWhile Char.isDigit)
  else none

/-- What follows the name of a directive. -/
def directiveToken (name : Bytes) (s : List Char) : Option (Token × List Char) :=
  let s := s.dropWhile isBlank
  if name = "YAML" then do
    let (major, rest) ← versionNumber s
    match rest with
    | '.' :: rest =>
      let (minor, rest) ← versionNumber rest
      some (.version major minor, rest)
    | _ => none
  else if name = "TAG" then do
    let (handle, rest) ← tagHandle s
    if handle.getLast? ≠ some '!' ∨ !(rest.head?.any isBlank) then none
    let (lead, rest) ← someTagText (rest.dropWhile isBlank)
    if atBlank rest then some (.tagHandle (toBytes handle) lead, rest) else none
  else none

/-- A directive after its percent sign, up to the next line. -/
def directive (start : Cursor) : Option (Token × Cursor) := do
  let name := start.rest.takeWhile isWord
  let rest := start.rest.dropWhile isWord
  if name = [] ∨ !atBlank rest then none
  let (token, rest) ← directiveToken (toBytes name) rest
  let stop := (start.moveTo rest).moveTo (rest.dropWhile isBlank)
  let stop := stop.skipComment
  if atLineEnd stop.rest then some (token, stop.nextLine) else none

end Stencil.Yaml
