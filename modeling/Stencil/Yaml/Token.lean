import Stencil.Yaml.Source

/-!
# YAML tokens

The pieces that a YAML text is cut into. Block collections have no brackets of their own; their
tokens stand where the indentation changes.
-/
namespace Stencil.Yaml

/-- A piece of a YAML text. -/
inductive Token where
  | version (major minor : Nat)
  /-- A short form of tags: what stands for `handle` at the front of a tag. -/
  | tagHandle (handle lead : Bytes)
  | documentStart
  | documentEnd
  | streamEnd
  | blockSequenceStart
  | blockMappingStart
  | blockEnd
  | flowSequenceStart
  | flowSequenceEnd
  | flowMappingStart
  | flowMappingEnd
  | blockEntry
  | flowEntry
  /-- What follows is a key. -/
  | key
  /-- What follows is the value of a key. -/
  | value
  | alias (name : Bytes)
  | anchor (name : Bytes)
  | tag (handle suffix : Bytes)
  /-- A scalar; `plain` when it was written without quotes and marks. -/
  | scalar (plain : Bool) (text : Bytes)
  deriving DecidableEq, Repr

/-- A place in a text: what follows, the line and the column. -/
structure Cursor where
  rest : List Char
  line : Nat := 0
  column : Nat := 0

namespace Cursor

/-- The place `n` characters on in the same line. -/
def advance (c : Cursor) (n : Nat) : Cursor :=
  { c with rest := c.rest.drop n, column := c.column + n }

/-- The place in the same line where `rest` follows. -/
def moveTo (c : Cursor) (rest : List Char) : Cursor :=
  { c with rest, column := c.column + (c.rest.length - rest.length) }

/-- The place at the end of the line. -/
def toLineEnd (c : Cursor) : Cursor := c.moveTo (c.rest.dropWhile fun d => !isBreak d)

/-- The place at the start of the next line, if the line ends here. -/
def nextLine (c : Cursor) : Cursor :=
  match c.rest with
  | [] => c
  | _ :: rest => ⟨rest, c.line + 1, 0⟩

/-- The place after a comment that follows in the same line. -/
def skipComment (c : Cursor) : Cursor :=
  if (c.rest.dropWhile isBlank).head? = some '#' then c.toLineEnd else c

end Cursor

/-- Three dashes or three points before a blank, which mark the bounds of a document where a line
starts. -/
def atMark (mark : Char) (s : List Char) : Bool :=
  s.take 3 == [mark, mark, mark] && atBlank (s.drop 3)

/-- A mark of the bounds of a document. -/
def atDocumentMark (s : List Char) : Bool := atMark '-' s || atMark '.' s

end Stencil.Yaml
