import Stencil.Text.Bytes

/-!
# Positions

A place in a template as a line, a column and an offset. Lines and columns count from one, offsets
from zero, all in bytes. The lines are found through the table of their starts.
-/
namespace Stencil.Markup

/-- A place in a template. -/
structure Position where
  line : Nat
  column : Nat
  offset : Nat
  deriving DecidableEq, Repr, Inhabited

/-- The extent of a piece of a template. -/
structure Span where
  start : Position
  stop : Position
  deriving DecidableEq, Repr, Inhabited

/-- The offsets at which lines start, after the first. -/
def lineStartsFrom : Nat → Bytes → List Nat
  | _, [] => []
  | i, c :: cs => if c = 10 then (i + 1) :: lineStartsFrom (i + 1) cs else lineStartsFrom (i + 1) cs

/-- The starts of the lines of a text, in increasing order. -/
structure LineTable where
  starts : Array Nat

def LineTable.ofText (s : Bytes) : LineTable := ⟨(0 :: lineStartsFrom 0 s).toArray⟩

/-- The number of lines that start at `offset` or before, by halving the range `lo ..< hi` that
is still open. -/
def LineTable.search (t : LineTable) (offset lo hi : Nat) : Nat :=
  if lo < hi then
    let mid := (lo + hi) / 2
    if offset < t.starts[mid]?.getD 0 then t.search offset lo mid else t.search offset (mid + 1) hi
  else lo
termination_by hi - lo

/-- The position of an offset. -/
def LineTable.position (t : LineTable) (offset : Nat) : Position :=
  let line := t.search offset 0 t.starts.size
  ⟨line, offset - t.starts[line - 1]?.getD 0 + 1, offset⟩

def LineTable.span (t : LineTable) (start stop : Nat) : Span := ⟨t.position start, t.position stop⟩

end Stencil.Markup
