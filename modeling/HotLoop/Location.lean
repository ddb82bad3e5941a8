import HotLoop.Json.Value

/-!
# Objects and their fields

A location is one field of one heap object.
-/

namespace HotLoop

structure ObjectId where
  number : Nat
  deriving DecidableEq

instance : ToString ObjectId where
  toString o := "#" ++ toString o.number

structure Location where
  object : ObjectId
  field : String
  deriving DecidableEq

instance : ToString Location where
  toString l := toString l.object ++ "." ++ l.field

def Location.toJson (l : Location) : Json :=
  .obj [("object", .int l.object.number), ("field", .str l.field)]

end HotLoop
