import HotLoop.Location
import HotLoop.Text.Quoted

/-!
# Green values and keys

A green value is a constant that compiled code is specialized to; the green values of a loop, in
order, are its key. Floats are equal when their bit patterns are.
-/

namespace HotLoop

inductive Green where
  | int (i : Int)
  /-- A float by its 64-bit pattern. -/
  | float (bits : UInt64)
  | bool (b : Bool)
  | str (s : String)
  | ref (object : ObjectId)
  deriving DecidableEq

namespace Green

inductive Kind where
  | int
  | float
  | bool
  | str
  | ref
  deriving DecidableEq

instance : ToString Kind where
  toString
    | .int => "int"
    | .float => "float"
    | .bool => "bool"
    | .str => "str"
    | .ref => "ref"

def kind : Green → Kind
  | .int _ => .int
  | .float _ => .float
  | .bool _ => .bool
  | .str _ => .str
  | .ref _ => .ref

/-- Floats in keys are positional from four zeros behind the point up to sixteen digits before it,
and ties go away from zero. -/
def floatLayout : Decimal.Layout where
  tie := .awayFromZero
  plainFrom := -4
  plainTo := 15
  plusSign := false
  nan := "NaN"
  infinity := "inf"
  minusInfinity := "-inf"

instance : ToString Green where
  toString
    | .int i => toString i
    | .float bits => floatLayout.render bits
    | .bool b => toString b
    | .str s => Text.quote s
    | .ref o => toString o

def toJson : Green → Json
  | .int i => .int i
  | .float bits => .float bits
  | .bool b => .bool b
  | .str s => .str s
  | .ref o => .int o.number

def int? : Green → Option Int
  | .int i => some i
  | _ => none

def ref? : Green → Option ObjectId
  | .ref o => some o
  | _ => none

end Green

structure Key where
  values : List Green
  deriving DecidableEq

namespace Key

def kinds (k : Key) : List Green.Kind := k.values.map Green.kind

instance : ToString Key where
  toString k := "(" ++ ", ".intercalate (k.values.map toString) ++ ")"

def toJson (k : Key) : Json := .arr (k.values.map Green.toJson)

end Key

end HotLoop
