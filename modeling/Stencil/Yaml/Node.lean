import Stencil.Text.Bytes

/-!
# YAML trees

What a YAML text says before its scalars are read as numbers, truth values or texts. An alias holds
the node that it stands for.
-/
namespace Stencil.Yaml

/-- The tags that mean something, in their short forms. -/
def textTag : Bytes := "!!str"

def mergeTag : Bytes := "!!merge"

/-- A node of a YAML text. -/
inductive Node where
  /-- A scalar. It has a tag when one is written or when it is no plain one. -/
  | scalar (tag : Option Bytes) (text : Bytes)
  | sequence (items : List Node)
  | mapping (entries : List (Node × Node))
  | alias (name : Bytes) (target : Node)
  /-- An alias of a node that it is itself a part of. -/
  | knot (name : Bytes)
  deriving Inhabited

/-- The node that stands where nothing is written. -/
def Node.absent : Node := .scalar none []

/-- What two keys of a mapping are compared by. -/
inductive KeyShape where
  | scalar (text : Bytes)
  | alias (name : Bytes)
  | sequence
  | mapping
  deriving DecidableEq

def Node.shape : Node → KeyShape
  | .scalar _ text => .scalar text
  | .sequence _ => .sequence
  | .mapping _ => .mapping
  | .alias name _ => .alias name
  | .knot name => .alias name

/-- No key is written twice. -/
def distinctKeys (entries : List (Node × Node)) : Bool := decide (entries.map (·.1.shape)).Nodup

end Stencil.Yaml
