import Stencil.Directive.Pattern
import Stencil.Directive.Script

/-!
# Directive definitions

What a directive is called, what arguments it takes, what parts may follow in its chain, and the
scripts that run while it is compiled.
-/
namespace Stencil.Directive

/-- The reserved name that closes the innermost open block. -/
def terminator : Bytes := "end"

/-- The template that is compiled, as hooks see it. -/
structure UnitInfo where
  path : Bytes
  /-- The names of the directives the template uses, once for each use. -/
  used : List Bytes

def UnitInfo.count (u : UnitInfo) (name : Bytes) : Nat := u.used.count name

def UnitInfo.uses (u : UnitInfo) (name : Bytes) : Bool := 0 < u.count name

/-- One use of a directive while a template is compiled. -/
structure Call where
  tag : Markup.Tag
  args : Argument.Arguments
  /-- The directive that started the chain. -/
  owner : Bytes
  unit : UnitInfo

/-- How names are matched with a definition. -/
inductive Matching where
  | exact
  | pattern (p : Option Pattern)

/-- A directive. -/
structure Definition where
  name : Bytes
  description : Bytes := []
  usage : Bytes := []
  matching : Matching := .exact
  params : Argument.Schema := []
  /-- The directive owns a block up to the terminator. -/
  block : Bool := false
  /-- The kind of text in the block; scripts and styles are taken literally. -/
  content : Bytes := []
  /-- What may follow in the chain. -/
  parts : List Definition := []
  /-- The parameter with a path that may be loaded ahead. -/
  prefetch : Bytes := []
  onInitFile : Option (UnitInfo → Script Unit) := none
  onInit : Option (Call → Script Unit) := none
  onParams : Option (Call → Script Unit) := none
  onChildren : Option (Call → Script Unit) := none
  onEnd : Option (Call → Script Unit) := none
  onEndFile : Option (UnitInfo → Script Unit) := none

namespace Definition

/-- In script and style blocks only interpolations and the terminator are recognised. -/
def isVerbatim (d : Definition) : Bool := d.content == ("script" : Bytes) || d.content == ("style" : Bytes)

/-- The part with a name. -/
def part? (d : Definition) (name : Bytes) : Option Definition := d.parts.find? fun p => p.name == name

mutual

/-- The parts below a definition at any depth, each with the name of what it is a part of. -/
def partNames : Definition → List (Bytes × Bytes)
  | ⟨name, _, _, _, _, _, _, parts, _, _, _, _, _, _, _⟩ => partNamesList name parts

def partNamesList (owner : Bytes) : List Definition → List (Bytes × Bytes)
  | [] => []
  | d :: ds => (d.name, owner) :: d.partNames ++ partNamesList owner ds

end

end Definition

end Stencil.Directive
