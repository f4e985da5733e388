/-!
# Byte strings

Template text, names, messages and output are byte strings: offsets, columns and lengths count
bytes, and nothing asks that a text be valid UTF-8. A string literal stands for its UTF-8 bytes.
-/
namespace Stencil

/-- A text as the sequence of its bytes. -/
abbrev Bytes := List UInt8

/-- The byte of an ASCII character. -/
def ascii (c : Char) : UInt8 := c.toNat.toUInt8

def backquote : UInt8 := 0x60

def openBrace : UInt8 := 0x7B

def closeBrace : UInt8 := 0x7D

namespace Bytes

def ofString (s : String) : Bytes := s.toUTF8.data.toList

instance : Coe String Bytes := ⟨ofString⟩

instance : LawfulBEq Bytes := inferInstance

/-- The decimal digits of a number. -/
def ofNat (n : Nat) : Bytes := ofString (Nat.repr n)

/-- The number that decimal digits write. -/
def natOfDigits (ds : Bytes) : Nat := ds.foldl (fun n c => n * 10 + (c.toNat - 48)) 0

def ofInt (n : Int) : Bytes :=
  if n < 0 then ascii '-' :: ofNat n.natAbs else ofNat n.natAbs

def ofBool (b : Bool) : Bytes := if b then "true" else "false"

/-- Decimal digits with zeros in front up to the width. -/
def padded (width n : Nat) : Bytes :=
  let digits := ofNat n
  List.replicate (width - digits.length) (ascii '0') ++ digits

def startsWith (lead s : Bytes) : Bool := lead.isPrefixOf s

def endsWith (tail s : Bytes) : Bool := tail.isSuffixOf s

/-- What stands before and after the first occurrence of `sep`. -/
def cut (sep : Bytes) : Bytes → Option (Bytes × Bytes)
  | [] => if sep = [] then some ([], []) else none
  | c :: cs =>
    if sep.isPrefixOf (c :: cs) then some ([], (c :: cs).drop sep.length)
    else (cut sep cs).map fun r => (c :: r.1, r.2)

def contains (sep s : Bytes) : Bool := (cut sep s).isSome

/-- Cuts at every `sep`; a text without one is the single piece. -/
def splitOn (sep : UInt8) : Bytes → List Bytes
  | [] => [[]]
  | c :: cs =>
    match splitOn sep cs with
    | [] => [[c]]
    | piece :: rest => if c = sep then [] :: piece :: rest else (c :: piece) :: rest

def join (sep : Bytes) (parts : List Bytes) : Bytes := sep.intercalate parts

/-- Drops `lead` from the front when it is there. -/
def dropLead (lead s : Bytes) : Bytes :=
  if startsWith lead s then s.drop lead.length else s

/-- Drops `tail` from the end when it is there. -/
def dropTail (tail s : Bytes) : Bytes :=
  if endsWith tail s then s.take (s.length - tail.length) else s

/-- Puts `new` for every byte `old`. -/
def replaceByte (old new : UInt8) (s : Bytes) : Bytes :=
  s.map fun c => if c = old then new else c

/-- Bytewise order, a text before its extensions. -/
def le : Bytes → Bytes → Bool
  | [], _ => true
  | _ :: _, [] => false
  | a :: as, b :: bs => if a < b then true else if b < a then false else le as bs

/-- Texts in bytewise order. -/
def sort (xs : List Bytes) : List Bytes := xs.mergeSort le

/-- An ASCII letter in lower case; every other byte as it is. -/
def lowerByte (c : UInt8) : UInt8 := if ascii 'A' ≤ c ∧ c ≤ ascii 'Z' then c + 32 else c

/-- The text as a string, invalid bytes replaced: for the console. -/
def toString (s : Bytes) : String :=
  String.fromUTF8? ⟨s.toArray⟩ |>.getD (String.ofList (s.map fun c => Char.ofNat c.toNat))

end Bytes

def isDigit (c : UInt8) : Bool := ascii '0' ≤ c && c ≤ ascii '9'

def isAsciiLetter (c : UInt8) : Bool :=
  (ascii 'a' ≤ c && c ≤ ascii 'z') || (ascii 'A' ≤ c && c ≤ ascii 'Z')

/-- The value of a hexadecimal digit. -/
def hexValue? (c : UInt8) : Option Nat :=
  if isDigit c then some (c.toNat - 48)
  else if ascii 'a' ≤ c ∧ c ≤ ascii 'f' then some (c.toNat - 87)
  else if ascii 'A' ≤ c ∧ c ≤ ascii 'F' then some (c.toNat - 55)
  else none

/-- The lower case hexadecimal digit of a number below sixteen. -/
def hexDigit (n : Nat) : UInt8 := if n < 10 then (48 + n).toUInt8 else (87 + n).toUInt8

/-- Exactly `width` lower case hexadecimal digits of a number, the low ones. -/
def hexPadded : Nat → Nat → Bytes
  | 0, _ => []
  | width + 1, n => hexPadded width (n / 16) ++ [hexDigit (n % 16)]

end Stencil
