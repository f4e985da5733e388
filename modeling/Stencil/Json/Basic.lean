import Stencil.Assoc
import Stencil.Text.Utf8

/-!
# JSON

JSON trees and their texts. A number is kept as it is written. In texts the characters that mean
something in markup are written by number, and a byte that starts no character becomes the
replacement character.
-/
namespace Stencil

/-- A JSON tree. The members of an object keep their order. -/
inductive Json where
  | null
  | bool (b : Bool)
  /-- The text of a number. -/
  | number (text : Bytes)
  | string (s : Bytes)
  | array (items : List Json)
  | object (members : List (Bytes × Json))
  deriving Inhabited

namespace Json

open Stencil.Text

def ofNat (n : Nat) : Json := .number (Bytes.ofNat n)

def ofInt (n : Int) : Json := .number (Bytes.ofInt n)

/-- A member of an object. -/
def member (name : Bytes) (value : Json) : Bytes × Json := (name, value)

/-- One glyph inside a JSON string. -/
def escapeGlyph : Glyph → Bytes
  | .stray _ => Utf8.encodeChar Utf8.replacement
  | .char c =>
    let n := c.toNat
    if c = '"' ∨ c = '\\' then [ascii '\\', ascii c]
    else if n = 8 then "\\b"
    else if n = 9 then "\\t"
    else if n = 10 then "\\n"
    else if n = 12 then "\\f"
    else if n = 13 then "\\r"
    else if n < 0x20 ∨ c = '<' ∨ c = '>' ∨ c = '&' ∨ n = 0x2028 ∨ n = 0x2029 then
      "\\u" ++ hexPadded 4 n
    else Utf8.encodeChar c

/-- A string with its quotes. -/
def quote (s : Bytes) : Bytes :=
  ascii '"' :: (Utf8.decode s).flatMap escapeGlyph ++ [ascii '"']

mutual

/-- The text on one line without blanks. -/
def compact : Json → Bytes
  | .null => "null"
  | .bool b => Bytes.ofBool b
  | .number t => t
  | .string s => quote s
  | .array items => "[" ++ Bytes.join "," (compactList items) ++ "]"
  | .object members => openBrace :: Bytes.join "," (compactMembers members) ++ [closeBrace]

def compactList : List Json → List Bytes
  | [] => []
  | j :: js => compact j :: compactList js

def compactMembers : List (Bytes × Json) → List Bytes
  | [] => []
  | (k, v) :: rest => (quote k ++ ":" ++ compact v) :: compactMembers rest

end

/-- A line break and the indentation of a depth. -/
def newline (depth : Nat) : Bytes := 10 :: List.replicate (2 * depth) 32

mutual

/-- The text with one member a line, indented by two. -/
def indented (depth : Nat) : Json → Bytes
  | .array [] => "[]"
  | .array items =>
    "[" ++ newline (depth + 1) ++
      Bytes.join ("," ++ newline (depth + 1)) (indentedList (depth + 1) items) ++
      newline depth ++ "]"
  | .object [] => [openBrace, closeBrace]
  | .object members =>
    openBrace :: newline (depth + 1) ++
      Bytes.join ("," ++ newline (depth + 1)) (indentedMembers (depth + 1) members) ++
      newline depth ++ [closeBrace]
  | .null => "null"
  | .bool b => Bytes.ofBool b
  | .number t => t
  | .string s => quote s

def indentedList (depth : Nat) : List Json → List Bytes
  | [] => []
  | j :: js => indented depth j :: indentedList depth js

def indentedMembers (depth : Nat) : List (Bytes × Json) → List Bytes
  | [] => []
  | (k, v) :: rest => (quote k ++ ": " ++ indented depth v) :: indentedMembers depth rest

end

mutual

/-- How many arrays and objects are open at the innermost place. -/
def height : Json → Nat
  | .array items => heightList items + 1
  | .object members => heightMembers members + 1
  | _ => 0

def heightList : List Json → Nat
  | [] => 0
  | j :: js => max (height j) (heightList js)

def heightMembers : List (Bytes × Json) → Nat
  | [] => 0
  | (_, v) :: rest => max (height v) (heightMembers rest)

end

/-- The first member with a name. -/
def get? (j : Json) (name : Bytes) : Option Json :=
  match j with
  | .object members => Assoc.get? name members
  | _ => none

end Json

end Stencil
