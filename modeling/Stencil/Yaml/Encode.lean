import Stencil.Value.Display
import Stencil.Yaml.Content
import Stencil.Yaml.KeyOrder

/-!
# Values as YAML

What is written for a value. A record comes in the order of its keys, and a value that is known
only by its text is a record without fields.
-/
namespace Stencil.Yaml

/-- A number; the words for what is no finite number start with a point. -/
def numberText (text : Bytes) : Bytes :=
  if text = "+Inf" then ".inf"
  else if text = "-Inf" then "-.inf"
  else if text = "NaN" then ".nan"
  else text

namespace Content

/-- The entries of a mapping in the order of their keys. A key that differs from itself finds no
value. -/
def ofEntries (entries : List (Value × Content × Content)) : Content :=
  .mapping <|
    (entries.mergeSort fun a b => !keyLt b.1 a.1).map fun e =>
      match e.1 with
      | .float x => (e.2.1, if x.isNaN then .null else e.2.2)
      | .float32 x => (e.2.1, if x.isNaN then .null else e.2.2)
      | _ => e.2

mutual

/-- What is written for a value. -/
def ofValue : Value → Content
  | .null => .null
  | .bool b => .ofBool b
  | .int n => .ofInt n
  | .sized _ n => .ofInt n
  | .float x => .atom (numberText (Decimal.listingStyle.float x))
  | .float32 x => .atom (numberText (Decimal.listingStyle.float32 x))
  | .text s => .text s
  | .time t => .atom (t.text?.getD [])
  | .list _ xs => .sequence (ofValues xs)
  | .record fields => ofEntries (ofFields fields)
  | .table _ entries => ofEntries (ofTable entries)
  | .reference none _ => .null
  | .reference (some n) _ => .ofInt n
  | .unit => .mapping []
  | .named _ => .mapping []

def ofValues : List Value → List Content
  | [] => []
  | x :: xs => ofValue x :: ofValues xs

def ofFields : List (Bytes × Value) → List (Value × Content × Content)
  | [] => []
  | (k, v) :: rest => (.text k, .text k, ofValue v) :: ofFields rest

def ofTable : List (Value × Value) → List (Value × Content × Content)
  | [] => []
  | (k, v) :: rest => (k, ofValue k, ofValue v) :: ofTable rest

end

end Content

end Stencil.Yaml
