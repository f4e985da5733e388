import Stencil.Assoc
import Stencil.Decimal.Format
import Stencil.Instant

/-!
# Values

The dynamic values that templates compute with: what data files hold, what expressions return and
what directives keep while a template is compiled. Each value has a type name, which messages
show, and a display text.
-/
namespace Stencil

/-- The integer types apart from the common one. -/
inductive SizedInt where
  | int8 | int16 | int32 | int64
  | uint | uint8 | uint16 | uint32 | uint64
  deriving DecidableEq, Repr

/-- What a list is declared to hold. -/
inductive ListType where
  | any
  | bytes
  | texts
  | ints
  | floats
  /-- A list of integers whose length belongs to its type. -/
  | array (size : Nat)
  deriving DecidableEq, Repr

/-- What the keys of a table are declared to be. -/
inductive KeyType where
  | int
  | any
  deriving DecidableEq, Repr

/-- A dynamic value. -/
inductive Value where
  | null
  | bool (b : Bool)
  | int (n : Int)
  | sized (type : SizedInt) (n : Int)
  | float (x : Float)
  | float32 (x : Float32)
  | text (s : Bytes)
  | time (t : Instant)
  | list (type : ListType) (items : List Value)
  /-- A map from names. Each name occurs once; the order means nothing. -/
  | record (fields : List (Bytes × Value))
  /-- A map from other keys. Each key occurs once; the order means nothing. -/
  | table (type : KeyType) (entries : List (Value × Value))
  /-- A reference to an integer, which may be empty. Its place in memory is all that its text shows. -/
  | reference (target : Option Int) (place : Nat := 0)
  /-- The value of the type with one value. -/
  | unit
  /-- A value known only by its text. -/
  | named (text : Bytes)
  deriving Inhabited

namespace Value

/-- A list of anything. -/
abbrev items (xs : List Value) : Value := .list .any xs

def nat (n : Nat) : Value := .int n

end Value

/-- The least and the number of values of an integer type. -/
def SizedInt.bounds : SizedInt → Int × Nat
  | .int8 => (-128, 256)
  | .int16 => (-32768, 65536)
  | .int32 => (-2147483648, 4294967296)
  | .int64 => (-9223372036854775808, 18446744073709551616)
  | .uint => (0, 18446744073709551616)
  | .uint8 => (0, 256)
  | .uint16 => (0, 65536)
  | .uint32 => (0, 4294967296)
  | .uint64 => (0, 18446744073709551616)

def SizedInt.name : SizedInt → Bytes
  | .int8 => "int8"
  | .int16 => "int16"
  | .int32 => "int32"
  | .int64 => "int64"
  | .uint => "uint"
  | .uint8 => "uint8"
  | .uint16 => "uint16"
  | .uint32 => "uint32"
  | .uint64 => "uint64"

/-- The integer type of a name. -/
def SizedInt.ofName? (name : Bytes) : Option SizedInt :=
  [SizedInt.int8, .int16, .int32, .int64, .uint, .uint8, .uint16, .uint32, .uint64].find?
    fun t => t.name == name

def ListType.name : ListType → Bytes
  | .any => "[]interface {}"
  | .bytes => "[]uint8"
  | .texts => "[]string"
  | .ints => "[]int"
  | .floats => "[]float64"
  | .array size => "[" ++ Bytes.ofNat size ++ "]int"

/-- The type name that messages show. -/
def Value.typeName : Value → Bytes
  | .null => "<nil>"
  | .bool _ => "bool"
  | .int _ => "int"
  | .sized t _ => t.name
  | .float _ => "float64"
  | .float32 _ => "float32"
  | .text _ => "string"
  | .time _ => "time.Time"
  | .list t _ => t.name
  | .record _ => "map[string]interface {}"
  | .table .int _ => "map[int]interface {}"
  | .table .any _ => "map[interface {}]interface {}"
  | .reference _ _ => "*int"
  | .unit => "struct {}"
  | .named _ => "main.stringer"

/-- A partial map as the list of its bindings. -/
abbrev Bindings := Assoc Bytes Value

end Stencil
