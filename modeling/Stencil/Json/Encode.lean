import Stencil.Json.Basic
import Stencil.Text.Base64
import Stencil.Value.Display

/-!
# Values as JSON

What is written for a value, when it has a text: numbers must be finite, and the keys of a map must
be texts or whole numbers of one type.
-/
namespace Stencil.Json

/-- The text of a number that is one. -/
def finite? (x : Decimal.Signed) (text : Bytes) : Option Json :=
  match x.magnitude with
  | .finite _ _ => some (.number text)
  | _ => none

/-- Members in the order of their names. -/
def sorted (members : List (Bytes × Json)) : Json :=
  .object (members.mergeSort fun a b => Bytes.le a.1 b.1)

mutual

/-- What is written for a value. -/
def ofValue? : Value → Option Json
  | .null => some .null
  | .bool b => some (.bool b)
  | .int n => some (.ofInt n)
  | .sized _ n => some (.ofInt n)
  | .float x => finite? (Decimal.ofFloat x) (Decimal.jsonStyle.float x)
  | .float32 x => finite? (Decimal.ofFloat32 x) (Decimal.jsonStyle.float32 x)
  | .text s => some (.string s)
  | .time t => t.text?.map .string
  | .list .bytes xs => some (.string (Text.Base64.encode (Value.bytesOf xs)))
  | .list _ xs => (ofValues? xs).map .array
  | .record fields => (ofFields? fields).map sorted
  | .table .int entries => (ofTable? entries).map sorted
  | .table .any _ => none
  | .reference none _ => some .null
  | .reference (some n) _ => some (.ofInt n)
  | .unit => some (.object [])
  | .named _ => some (.object [])

def ofValues? : List Value → Option (List Json)
  | [] => some []
  | x :: xs => do return (← ofValue? x) :: (← ofValues? xs)

def ofFields? : List (Bytes × Value) → Option (List (Bytes × Json))
  | [] => some []
  | (k, v) :: rest => do return (k, ← ofValue? v) :: (← ofFields? rest)

def ofTable? : List (Value × Value) → Option (List (Bytes × Json))
  | [] => some []
  | (k, v) :: rest => do return (k.display, ← ofValue? v) :: (← ofTable? rest)

end

end Stencil.Json
