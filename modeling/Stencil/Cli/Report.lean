import Stencil.Failure
import Stencil.Text.Blank

/-!
# Reports on the console

Diagnostics as lines: where, how bad, what, and of which kind. A place is set as a block of text: a
tab is four blanks wide, and all lines of the block have the width of the longest one.
-/
namespace Stencil.Cli

/-- The characters that take two columns. -/
def wideRanges : List (Nat × Nat) :=
  [(0x1100, 0x115F), (0x2E80, 0x303E), (0x3041, 0x4DBF), (0x4E00, 0xA4CF), (0xA960, 0xA97C),
    (0xAC00, 0xD7A3), (0xF900, 0xFAFF), (0xFE30, 0xFE6F), (0xFF01, 0xFF60), (0xFFE0, 0xFFE6),
    (0x1F300, 0x1F64F), (0x1F680, 0x1F6FC), (0x1F900, 0x1FAFF), (0x20000, 0x3FFFD)]

/-- The characters that take no column: controls, and marks on the character before. -/
def narrowRanges : List (Nat × Nat) :=
  [(0, 0x1F), (0x7F, 0x9F), (0x300, 0x36F), (0x200B, 0x200F), (0x20D0, 0x20F0), (0xFE00, 0xFE0F)]

/-- How many columns a character takes. -/
def columnsOf (c : Char) : Nat :=
  let within (ranges : List (Nat × Nat)) : Bool :=
    ranges.any fun r => r.1 ≤ c.toNat && c.toNat ≤ r.2
  if within narrowRanges then 0 else if within wideRanges then 2 else 1

/-- How many columns a line takes. -/
def widthOf (line : Bytes) : Nat :=
  (Text.Utf8.decode line).foldl (fun (n : Nat) g => n + columnsOf (Text.Utf8.charOf g)) 0

/-- Takes the carriage return before each line feed away. -/
def unixLines : Bytes → Bytes
  | [] => []
  | c :: cs => if c = 13 ∧ cs.head? = some 10 then unixLines cs else c :: unixLines cs

/-- A text as a block. -/
def block (text : Bytes) : Bytes :=
  let text := unixLines (text.flatMap fun c => if c = 9 then List.replicate 4 32 else [c])
  let lines := Bytes.splitOn 10 text
  let width := (lines.map widthOf).foldl max 0
  Bytes.join [10] (lines.map fun line => line ++ List.replicate (width - widthOf line) 32)

/-- A diagnostic as a line. `path` is the template at hand. -/
def diagnosticLine (path : Bytes) (d : Diagnostic) : Bytes :=
  let path := if d.path = [] then path else d.path
  let place := match d.at? with
    | some p => path ++ ":" ++ Bytes.ofNat p.line ++ ":" ++ Bytes.ofNat p.column
    | none => path
  let severity : Bytes := if d.kind = .autoClosed then "warning" else "error"
  block place ++ " " ++ severity ++ " " ++ d.message ++ " [" ++ d.kind.name ++ "]\n"

def diagnosticLines (path : Bytes) (ds : List Diagnostic) : Bytes := ds.flatMap (diagnosticLine path)

/-- How many diagnostics are more than warnings. -/
def errorCount (ds : List Diagnostic) : Nat := ds.countP fun d => d.kind != .autoClosed

/-- A failure as its diagnostics, or as a line of its own when it carries none. -/
def failureLines (path : Bytes) (f : Failure) : Bytes :=
  match f.diagnosticsOf with
  | [] => block path ++ " error " ++ Text.trim f.message ++ "\n"
  | ds => diagnosticLines path ds

end Stencil.Cli
