import Stencil.Text.CodePoints
import Stencil.Text.Utf8
import Stencil.Value.Basic
import Stencil.Wrap

/-!
# The order of keys

The order in which a mapping is written. Numbers and truth values come by size, texts so that the
numbers in them count: `k2` comes before `k10`. Keys of other types come by type.
-/
namespace Stencil.Yaml

/-- The place of a key's type among the types. -/
def typePlace : Value → Nat
  | .bool _ => 1
  | .int _ => 2
  | .sized .int8 _ => 3
  | .sized .int16 _ => 4
  | .sized .int32 _ => 5
  | .sized .int64 _ => 6
  | .sized .uint _ => 7
  | .sized .uint8 _ => 8
  | .sized .uint16 _ => 9
  | .sized .uint32 _ => 10
  | .sized .uint64 _ => 11
  | .float32 _ => 13
  | .float _ => 14
  | .list _ _ => 17
  | .null => 20
  | .record _ => 21
  | .table _ _ => 21
  | .reference none _ => 22
  | .reference (some _) _ => 2
  | .text _ => 24
  | .time _ => 25
  | .unit => 25
  | .named _ => 25

/-- A number, a truth value as zero or one. -/
def size? : Value → Option Float
  | .bool b => some (if b then 1 else 0)
  | .int n => some (Decimal.floatOfInt n)
  | .sized _ n => some (Decimal.floatOfInt n)
  | .float x => some x
  | .float32 x => some x.toFloat
  | .reference (some n) _ => some (Decimal.floatOfInt n)
  | _ => none

/-- The exact value of a whole number. -/
def whole? : Value → Option Int
  | .int n => some n
  | .sized _ n => some n
  | .reference n _ => n
  | _ => none

/-- The digits that a text starts with. -/
def digitRun (cs : List Char) : List Char := cs.takeWhile Text.isDecimalDigit

/-- A number of 64 bits, with the digits of a run put behind it. -/
def runValue (start : Int) (run : List Char) : Int :=
  run.foldl (fun n c => wrap (n * 10 + (c.toNat - 48))) start

/-- Whether the digits just before a place hold one other than zero; `before` is the text before it,
from its end. -/
def followsNumber (before : List Char) : Bool := (digitRun before).any (· != '0')

/-- The order of two texts that differ from here on; `before` is what they share, from its end. -/
def differLt (before a b : List Char) (x y : Char) : Bool :=
  let xLetter := Text.isLetter x
  let yLetter := Text.isLetter y
  if xLetter && yLetter then x < y
  else if xLetter || yLetter then
    if before.head?.any Text.isDecimalDigit then xLetter else yLetter
  else
    let start : Int := if (x == '0' || y == '0') && followsNumber before then 1 else 0
    let left := digitRun a
    let right := digitRun b
    if runValue start left ≠ runValue start right then runValue start left < runValue start right
    else if left.length ≠ right.length then left.length < right.length
    else x < y

/-- The order of texts: letters after other characters, runs of digits by their values. -/
def textLt (before : List Char) : List Char → List Char → Bool
  | x :: a, y :: b =>
    if x = y then textLt (x :: before) a b else differLt before (x :: a) (y :: b) x y
  | a, b => a.length < b.length

/-- Whether a key comes before another one. -/
def keyLt (a b : Value) : Bool :=
  match size? a, size? b with
  | some x, some y =>
    if x != y then x < y
    else if typePlace a ≠ typePlace b then typePlace a < typePlace b
    else match whole? a, whole? b with
      | some m, some n => m < n
      | _, _ => false
  | _, _ =>
    match a, b with
    | .text s, .text t =>
      textLt [] ((Text.Utf8.decode s).map Text.Utf8.charOf) ((Text.Utf8.decode t).map Text.Utf8.charOf)
    | _, _ => typePlace a < typePlace b

end Stencil.Yaml
