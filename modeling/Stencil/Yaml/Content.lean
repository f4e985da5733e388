import Stencil.Text.Bytes

/-!
# What is written as YAML
-/
namespace Stencil.Yaml

/-- Content of a YAML document that is to be written. -/
inductive Content where
  /-- A scalar that is written as it is: a number, a truth value, an absent value. -/
  | atom (text : Bytes)
  | text (s : Bytes)
  | sequence (items : List Content)
  | mapping (entries : List (Content × Content))
  deriving Inhabited

namespace Content

def null : Content := .atom "null"

def ofBool (b : Bool) : Content := .atom (Bytes.ofBool b)

def ofInt (n : Int) : Content := .atom (Bytes.ofInt n)

/-- A member of a mapping with a name. -/
def member (name : Bytes) (value : Content) : Content × Content := (.text name, value)

end Content

end Stencil.Yaml
