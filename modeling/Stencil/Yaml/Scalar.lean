import Stencil.Decimal.Read
import Stencil.Text.Base64
import Stencil.Value.Basic
import Stencil.Wrap
import Stencil.Yaml.Node

/-!
# Reading of YAML scalars

What a scalar without a tag is read as: an absent value, a truth value, a number, a time, or a text.
A tag asks for one of these, and a scalar that is read as another is refused.
-/
namespace Stencil.Yaml

def nullTag : Bytes := "!!null"

def boolTag : Bytes := "!!bool"

def intTag : Bytes := "!!int"

def floatTag : Bytes := "!!float"

def timeTag : Bytes := "!!timestamp"

def binaryTag : Bytes := "!!binary"

/-! ### Numbers -/

/-- Digits of a base as a number; at least one. -/
def readBase (base : Nat) (s : Bytes) : Option Nat :=
  let ds := s.filterMap fun c =>
    match hexValue? c with
    | some d => if d < base then some d else none
    | none => none
  if s ≠ [] ∧ ds.length = s.length then some (Decimal.ofDigits base ds) else none

/-- An unsigned integer in any notation: a base mark, a leading zero for octal, or decimal. -/
def readNat (s : Bytes) : Option Nat :=
  let low := s.map Bytes.lowerByte
  if Bytes.startsWith "0x" low then readBase 16 (s.drop 2)
  else if Bytes.startsWith "0b" low then readBase 2 (s.drop 2)
  else if Bytes.startsWith "0o" low then readBase 8 (s.drop 2)
  else if 1 < s.length ∧ Bytes.startsWith "0" s then readBase 8 (s.drop 1)
  else readBase 10 s

/-- An integer that fits: the common type if it can, the unsigned 64 bit type beyond, which takes
no sign. -/
def fitting (negative signed : Bool) (n : Nat) : Option Value :=
  if negative then if n ≤ wordLimit then some (.int (-n)) else none
  else if n < wordLimit then some (.int n)
  else if n < wordCount ∧ !signed then some (.sized .uint64 n)
  else none

/-- An integer with an optional sign in front. -/
def readInt (s : Bytes) : Option Value :=
  let (negative, body) := Decimal.takeSign s
  (readNat body).bind (fitting negative (body.length != s.length))

/-- An integer whose sign stands after the mark of its base, or before it if the digits have
none. -/
def readMarked (mark : Bytes) (base : Nat) (s : Bytes) : Option Value :=
  if Bytes.startsWith mark s then
    let digits := s.drop mark.length
    let (negative, body) := Decimal.takeSign digits
    (readBase base body).bind (fitting negative (body.length != digits.length))
  else if Bytes.startsWith ("-" ++ mark) s then
    (readBase base (s.drop (mark.length + 1))).bind (fitting true true)
  else none

/-- Decimal digits with an optional point and exponent. -/
def isFloatText (s : Bytes) : Bool :=
  let body := (Decimal.takeSign s).2
  let whole := body.takeWhile isDigit
  let rest := body.dropWhile isDigit
  let fraction := match rest with
    | c :: cs => if c = ascii '.' then some (cs.takeWhile isDigit, cs.dropWhile isDigit) else none
    | [] => none
  let rest := match fraction with
    | some (_, r) => r
    | none => rest
  let someDigits := whole ≠ [] ∨ (fraction.map (·.1)).getD [] ≠ []
  let exponentOk := match rest with
    | [] => true
    | c :: cs =>
      let ds := (Decimal.takeSign cs).2
      (c == ascii 'e' || c == ascii 'E') && !ds.isEmpty && ds.all isDigit
  decide someDigits && exponentOk

/-- A number, in which underscores do not count. -/
def readNumber (s : Bytes) : Option (Bytes × Value) :=
  let bare := s.filter (· ≠ ascii '_')
  match readInt bare with
  | some v => some (intTag, v)
  | none =>
    match if isFloatText bare then Decimal.readFloat? bare else none with
    | some x => some (floatTag, .float x)
    | none => ((readMarked "0b" 2 bare).orElse fun _ => readMarked "0o" 8 bare).map (intTag, ·)

/-! ### Times -/

/-- The ways to write a time, short fields allowed. -/
def timeLayouts : List Instant.Layout := [⟨false, 'T', true⟩, ⟨false, 't', true⟩, ⟨false, ' ', false⟩]

/-- A time or a date, whose year has four digits. -/
def readTime (s : Bytes) : Option Instant :=
  if (s.takeWhile isDigit).length = 4 then
    (timeLayouts.findSome? fun l => Instant.read? l s).orElse fun _ => Instant.ofDate? s
  else none

/-! ### Scalars -/

/-- The names with a fixed meaning. -/
def fixed? (s : Bytes) : Option (Bytes × Value) :=
  if s ∈ ([[], "~", "null", "Null", "NULL"] : List Bytes) then some (nullTag, .null)
  else if s ∈ (["true", "True", "TRUE"] : List Bytes) then some (boolTag, .bool true)
  else if s ∈ (["false", "False", "FALSE"] : List Bytes) then some (boolTag, .bool false)
  else if s ∈ ([".nan", ".NaN", ".NAN"] : List Bytes) then
    some (floatTag, .float (Decimal.toFloat ⟨false, .notANumber⟩))
  else if s ∈ ([".inf", ".Inf", ".INF", "+.inf", "+.Inf", "+.INF"] : List Bytes) then
    some (floatTag, .float (Decimal.toFloat ⟨false, .infinite⟩))
  else if s ∈ (["-.inf", "-.Inf", "-.INF"] : List Bytes) then
    some (floatTag, .float (Decimal.toFloat ⟨true, .infinite⟩))
  else none

/-- The tag and the value of a scalar by its looks. A time is taken for one only if `times`. -/
def readPlain (times : Bool) (s : Bytes) : Bytes × Value :=
  match fixed? s with
  | some r => r
  | none =>
    match s with
    | [] => (nullTag, .null)
    | c :: _ =>
      if c = ascii '.' then
        match Decimal.readFloat? s with
        | some x => (floatTag, .float x)
        | none => (textTag, .text s)
      else if isDigit c ∨ c = ascii '+' ∨ c = ascii '-' then
        match if times then readTime s else none with
        | some t => (timeTag, .time t)
        | none => (readNumber s).getD (textTag, .text s)
      else (textTag, .text s)

/-- A scalar read with its tag; `none` when it is not what the tag asks for. Integers are taken for
floating point numbers where these are asked for. -/
def readScalar (tag : Option Bytes) (s : Bytes) : Option (Bytes × Value) :=
  match tag with
  | none => if s = "<<" then some (mergeTag, .text s) else some (readPlain true s)
  | some t =>
    if t = textTag then some (textTag, .text s)
    else if t = binaryTag then (Text.Base64.decode? s).map fun data => (binaryTag, .text data)
    else if t ∈ [nullTag, boolTag, intTag, floatTag, timeTag] then
      match readPlain (t == timeTag) s with
      | (u, v) =>
        if u = t then some (u, v)
        else match u == intTag && t == floatTag, v with
          | true, .int n => some (floatTag, .float (Decimal.floatOfInt n))
          | _, _ => none
    else some (t, .text s)

/-- The tag of a scalar, which is its written one or the one of its looks. -/
def scalarTag (tag : Option Bytes) (s : Bytes) : Bytes :=
  match tag with
  | some t => t
  | none => if s = "<<" then mergeTag else (readPlain true s).1

end Stencil.Yaml
