import Stencil.Value.Display

/-!
# Conditions and iteration

When a value counts as true, and the entries that a loop over a value visits.
-/
namespace Stencil.Value

/-- Zero numbers, empty texts and collections and absent values are false. -/
def truthy : Value → Bool
  | .null => false
  | .bool b => b
  | .int n => n ≠ 0
  | .sized _ n => n ≠ 0
  | .float x => x != 0
  | .float32 x => x != 0
  | .text s => s ≠ []
  | .time _ => true
  | .list _ xs => !xs.isEmpty
  | .record fields => !fields.isEmpty
  | .table _ entries => !entries.isEmpty
  | .reference target _ => target.isSome
  | .unit => true
  | .named _ => true

/-- One step of a loop. -/
structure Entry where
  key : Value
  value : Value

/-- Items numbered from `start`. -/
def numbered : Nat → List Value → List Entry
  | _, [] => []
  | i, x :: xs => ⟨.nat i, x⟩ :: numbered (i + 1) xs

/-- A number that is not equal to itself: as a key it is enumerated but never found. -/
def isNaN : Value → Bool
  | .float x => x.isNaN
  | .float32 x => x.isNaN
  | _ => false

/-- The entries a loop visits: the items of a list, the bindings of a map by the text of their
keys, the numbers below a count. Nothing else can be looped over, nor can a map with a key that is
not found. -/
def entries? : Value → Option (List Entry)
  | .null => some []
  | .list _ xs => some (numbered 0 xs)
  | .record fields =>
    some ((fields.mergeSort fun a b => Bytes.le a.1 b.1).map fun e => ⟨.text e.1, e.2⟩)
  | .table _ es =>
    if es.any fun e => e.1.isNaN then none
    else some ((es.mergeSort fun a b => Bytes.le (display a.1) (display b.1)).map fun e => ⟨e.1, e.2⟩)
  | .int n => some ((List.range n.toNat).map fun i => ⟨.nat i, .nat i⟩)
  | _ => none

/-- The bindings of a map with names; an absent value binds nothing. -/
def bindings? : Value → Option Bindings
  | .null => some []
  | .record fields => some fields
  | _ => none

end Stencil.Value
