import Stencil.Json.Basic
import Stencil.Markup.Node
import Stencil.Text.Quoted

/-!
# Diagnostics

Located records of what is wrong with a template.
-/
namespace Stencil

/-- The kind of a diagnostic. -/
inductive DiagnosticKind where
  /-- The template cannot be read at all. -/
  | syntaxError
  | unknownDirective
  | misplacedPart
  | strayTerminator
  /-- A hook of a directive failed. -/
  | hook
  /-- A warning: a block was closed by the end of the template. -/
  | autoClosed
  | other (code : Int)
  deriving DecidableEq, Repr

def DiagnosticKind.all : List DiagnosticKind :=
  [.syntaxError, .unknownDirective, .misplacedPart, .strayTerminator, .hook, .autoClosed]

def DiagnosticKind.ofCode (code : Int) : DiagnosticKind :=
  if 0 ≤ code then DiagnosticKind.all[code.toNat]?.getD (.other code) else .other code

def DiagnosticKind.name : DiagnosticKind → Bytes
  | .syntaxError => "syntax"
  | .unknownDirective => "unknown-directive"
  | .misplacedPart => "misplaced-subdirective"
  | .strayTerminator => "stray-terminator"
  | .hook => "hook"
  | .autoClosed => "autoclosed"
  | .other code => "kind(" ++ Bytes.ofInt code ++ ")"

/-- One diagnostic. -/
structure Diagnostic where
  kind : DiagnosticKind
  message : Bytes
  /-- The directive it is about, if any. -/
  name : Bytes := []
  path : Bytes := []
  at? : Option Markup.Position := none
  deriving DecidableEq, Repr

/-- The diagnostic as a line: path, line and column as far as known, then the message. -/
def Diagnostic.text (d : Diagnostic) : Bytes :=
  let path : Bytes := if d.path = [] then [] else d.path ++ ":"
  let place : Bytes := match d.at? with
    | some p => Bytes.ofNat p.line ++ ":" ++ Bytes.ofNat p.column ++ ":"
    | none => []
  let gap : Bytes := if path ++ place = [] then [] else " "
  path ++ place ++ gap ++ d.message

/-- The text of several diagnostics. -/
def Diagnostic.listText : List Diagnostic → Bytes
  | [] => "no errors"
  | [d] => d.text
  | ds => Bytes.ofNat ds.length ++ " errors:\n\t" ++ Bytes.join "\n\t" (ds.map Diagnostic.text)

def Markup.Position.toJson (p : Markup.Position) : Json :=
  .object [("line", .ofNat p.line), ("column", .ofNat p.column), ("offset", .ofNat p.offset)]

/-- A diagnostic as a record: the fields that are empty are left out. -/
def Diagnostic.toJson (d : Diagnostic) : Json :=
  let unlessEmpty (name s : Bytes) : List (Bytes × Json) :=
    if s = [] then [] else [(name, .string s)]
  .object ([Json.member "message" (.string d.message), Json.member "kind" (.string d.kind.name)]
    ++ unlessEmpty "name" d.name ++ unlessEmpty "path" d.path
    ++ (d.at?.map fun p => Json.member "location" p.toJson).toList)

/-- A warning for each block that the end of the template closed. -/
def Diagnostic.warnings (nodes : List Markup.Node) : List Diagnostic :=
  ((Markup.Node.tagsList nodes).filter (·.autoClosed)).map fun t =>
    { kind := .autoClosed, name := t.name, at? := some t.span.start,
      message := "@" ++ t.name ++ " is not closed before end of input" }

end Stencil
