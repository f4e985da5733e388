import Stencil.Json.Parse
import Stencil.Wrap

/-!
# Fields of stored records

How a record is read from a JSON object: field names agree up to letter case, unknown fields are
passed over, an absent value leaves its field alone, and a value of the wrong type refuses the whole
record. A field may be given more than once; what it is given later goes over what it held.
-/
namespace Stencil.Json

/-- A field name in lower case. Two characters beyond ASCII have a lower case inside it. -/
def foldName : Bytes → Bytes
  | 0xC5 :: 0xBF :: rest => ascii 's' :: foldName rest
  | 0xE2 :: 0x84 :: 0xAA :: rest => ascii 'k' :: foldName rest
  | c :: rest => Bytes.lowerByte c :: foldName rest
  | [] => []

/-- Field names agree up to letter case. -/
def sameField (a b : Bytes) : Bool := foldName a == foldName b

/-- An integer of 64 bits as written in a JSON number. -/
def int64? (t : Bytes) : Option Int :=
  let negative := Bytes.startsWith "-" t
  let body := Bytes.dropLead "-" t
  if body ≠ [] ∧ body.all isDigit then
    let n := Bytes.natOfDigits body
    if negative then if n ≤ wordLimit then some (-(n : Int)) else none
    else if n < wordLimit then some (n : Int) else none
  else none

/-- A text, or what the field held before. -/
def readText (old : Bytes) : Json → Option Bytes
  | .string s => some s
  | .null => some old
  | _ => none

/-- An integer, or what the field held before. -/
def readInt (old : Int) : Json → Option Int
  | .number t => int64? t
  | .null => some old
  | _ => none

/-- A truth value, or what the field held before. -/
def readBool (old : Bool) : Json → Option Bool
  | .bool b => some b
  | .null => some old
  | _ => none

/-- A list that is read. When its field is given again, the items are written over one by one: what
a new item leaves out stays as it was, also beyond the end of a list that was cut short. -/
structure Slots (α : Type) where
  items : List α := []
  /-- Items that were there once, beyond the end. -/
  spare : List α := []

namespace Slots

variable {α : Type} {m : Type → Type} [Monad m]

/-- Writes over old items as long as there are any, and over blank ones beyond. -/
def overwrite (read : α → Json → m α) (blank : α) : (old : List α) → List Json → m (List α)
  | _, [] => pure []
  | [], j :: js => do
    let a ← read blank j
    let rest ← overwrite read blank [] js
    return a :: rest
  | a :: old, j :: js => do
    let a ← read a j
    let rest ← overwrite read blank old js
    return a :: rest

/-- The list after its field is given again. An empty list forgets what was there. -/
def laidOver (read : α → Json → m α) (blank : α) (old : Slots α) : List Json → m (Slots α)
  | [] => pure {}
  | js => do
    let backing := old.items ++ old.spare
    return ⟨← overwrite read blank backing js, backing.drop js.length⟩

end Slots

/-- The items of a list; an absent value has none to tell. -/
def items? : Json → Option (Option (List Json))
  | .array items => some (some items)
  | .null => some none
  | _ => none

/-- A list of texts, absent when it is not given. -/
def readTexts (old : Option (Slots Bytes)) (j : Json) : Option (Option (Slots Bytes)) := do
  match ← items? j with
  | some js => return some (← Slots.laidOver readText [] (old.getD {}) js)
  | none => return none

/-- A record, field by field. -/
def readRecord {α : Type} (setField : α → Bytes → Json → Option α) (start : α) : Json → Option α
  | .object members => members.foldlM (fun a m => setField a m.1 m.2) start
  | .null => some start
  | _ => none

/-- A table from names to values, laid over an old one; nothing when it is not given. -/
def readTable {α : Type} (readValue : Json → Option α) (old : Assoc Bytes α) :
    Json → Option (Assoc Bytes α)
  | .object members =>
    members.foldlM (fun t m => (readValue m.2).map fun v => Assoc.insert m.1 v t) old
  | .null => some []
  | _ => none

/-- The members of an object with the texts of their values as they are written. -/
def rawMembersAt : (fuel : Nat) → Bytes → Option (List (Bytes × Bytes))
  | 0, _ => none
  | fuel + 1, s => do
    let (key, rest) ← stringBody [] ((skipSpace s).drop 1)
    let s := skipSpace ((skipSpace rest).drop 1)
    let (_, rest) ← valueAt (2 * s.length + 2) s
    let m := (key, s.take (s.length - rest.length))
    match skipSpace rest with
    | [] => none
    | c :: cs => if c = ascii ',' then (rawMembersAt fuel cs).map (m :: ·) else some [m]

/-- The members of the object that a well-formed text holds, each with the text of its value. -/
def rawMembers (s : Bytes) : List (Bytes × Bytes) :=
  (rawMembersAt s.length ((skipSpace s).drop 1)).getD []

end Stencil.Json
