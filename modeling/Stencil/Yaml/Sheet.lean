import Stencil.Text.Utf8
import Stencil.Yaml.Source

/-!
# Sheets

The text of a YAML document while it is written. What is written next depends on the column, on
whether a blank stands right before, and on whether the line holds nothing but indentation and marks
so far.
-/
namespace Stencil.Yaml

open Stencil.Text

/-- A text that is being written. -/
structure Sheet where
  /-- What was written, the last byte first. -/
  written : Bytes := []
  column : Nat := 0
  /-- A blank stands right before. -/
  spaced : Bool := true
  /-- The line holds only indentation and marks of collections. -/
  fresh : Bool := true

namespace Sheet

def text (s : Sheet) : Bytes := s.written.reverse

/-- Writes a character of a scalar. -/
def put (c : Char) (s : Sheet) : Sheet :=
  { s with written := (Utf8.encodeChar c).reverse ++ s.written, column := s.column + 1 }

def putAll (cs : List Char) (s : Sheet) : Sheet := cs.foldl (fun s c => s.put c) s

/-- Starts a new line with a certain line break. -/
def breakWith (c : Char) (s : Sheet) : Sheet :=
  { s with written := (Utf8.encodeChar c).reverse ++ s.written, column := 0, fresh := true }

def newline (s : Sheet) : Sheet := s.breakWith '\n'

/-- Puts a space unless there is one. -/
def space (s : Sheet) : Sheet := if s.spaced then s else s.put ' '

/-- The line is no longer fresh, and no blank stands right before. -/
def settled (s : Sheet) : Sheet := { s with spaced := false, fresh := false }

/-- Writes a mark of a collection, after which the line is as fresh as it was. -/
def mark (c : Char) (s : Sheet) : Sheet := { s.space.put c with spaced := false }

/-- Writes a sign after a space. -/
def sign (c : Char) (s : Sheet) : Sheet := (s.space.put c).settled

/-- Goes to a column, in a new line unless nothing but indentation is written there. -/
def indentTo (n : Nat) (s : Sheet) : Sheet :=
  let s := if !s.fresh ∨ n < s.column ∨ (s.column = n ∧ !s.spaced) then s.newline else s
  { s.putAll (List.replicate (n - s.column) ' ') with spaced := true }

end Sheet

end Stencil.Yaml
