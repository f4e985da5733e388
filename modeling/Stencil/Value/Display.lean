import Stencil.Value.Basic

/-!
# Display texts

The text of a value in listings and messages, and the text that rendering writes for it. The two
agree except at the top: rendering writes nothing for an absent value, bytes as they are, and
numbers without an exponent.

Maps are shown in the order of their keys: absent values first, then by type, then by value, so
that equal maps have equal texts.
-/
namespace Stencil.Value

/-- The rank of a key's type among keys of several types. -/
def keyRank : Value → Nat
  | .null => 0
  | .bool _ => 1
  | .float _ => 2
  | .float32 _ => 3
  | .int _ => 4
  | .sized _ _ => 5
  | .text _ => 6
  | .time _ => 7
  | _ => 8

/-- The order of map keys: by type, then numbers by size, texts bytewise, times by the fraction of
their second first. -/
def keyLe : Value → Value → Bool
  | .int a, .int b => a ≤ b
  | .sized _ a, .sized _ b => a ≤ b
  | .float a, .float b => a ≤ b || a.isNaN
  | .float32 a, .float32 b => a ≤ b || a.isNaN
  | .text a, .text b => Bytes.le a b
  | .bool a, .bool b => !a || b
  | .time a, .time b =>
    let fraction (t : Instant) : Int := t.nanos % Instant.nanosPerSecond
    fraction a < fraction b || (fraction a == fraction b && a.nanos ≤ b.nanos)
  | a, b => keyRank a ≤ keyRank b

mutual

/-- The text of a value in a listing. -/
def display : Value → Bytes
  | .null => "<nil>"
  | .bool b => Bytes.ofBool b
  | .int n => Bytes.ofInt n
  | .sized _ n => Bytes.ofInt n
  | .float x => Decimal.listingStyle.float x
  | .float32 x => Decimal.listingStyle.float32 x
  | .text s => s
  | .time t => t.display
  | .list _ xs => "[" ++ Bytes.join " " (displayList xs) ++ "]"
  | .record fields =>
    "map[" ++ Bytes.join " "
      (((displayFields fields).mergeSort fun a b => Bytes.le a.1 b.1).map
        fun e => e.1 ++ ":" ++ e.2) ++ "]"
  | .table _ entries =>
    "map[" ++ Bytes.join " "
      (((displayEntries entries).mergeSort fun a b => keyLe a.1 b.1).map fun e => e.2) ++ "]"
  | .reference none _ => "<nil>"
  | .reference (some _) place => "0x" ++ (Nat.toDigits 16 place).map ascii
  | .unit => [openBrace, closeBrace]
  | .named s => s

def displayList : List Value → List Bytes
  | [] => []
  | x :: xs => display x :: displayList xs

def displayFields : List (Bytes × Value) → List (Bytes × Bytes)
  | [] => []
  | (k, v) :: rest => (k, display v) :: displayFields rest

def displayEntries : List (Value × Value) → List (Value × Bytes)
  | [] => []
  | (k, v) :: rest => (k, display k ++ ":" ++ display v) :: displayEntries rest

end

/-- The bytes of a list of byte values. -/
def bytesOf (xs : List Value) : Bytes :=
  xs.map fun v => match v with | .sized _ n => n.toNat.toUInt8 | _ => 0

/-- The text that rendering writes for a value. -/
def rendered : Value → Bytes
  | .null => []
  | .list .bytes xs => bytesOf xs
  | .float x => Decimal.plainStyle.float x
  | .float32 x => Decimal.plainStyle.float32 x
  | v => display v

end Stencil.Value
