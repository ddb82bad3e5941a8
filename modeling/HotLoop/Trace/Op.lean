import HotLoop.Location

/-!
# Recorded operations

What a trace shows of the iteration that it recorded.
-/

namespace HotLoop.Trace

inductive Op where
  /-- The head of the loop. -/
  | label
  /-- The back edge to the head. -/
  | jump
  | getField (l : Location)
  /-- A read that was folded into a constant. -/
  | foldedField (l : Location)
  /-- The entry check of a folded read. -/
  | guardVersion (l : Location)
  /-- The direction that a branch took. -/
  | guardBranch (index : Nat) (expected : Bool)
  | setField (l : Location)
  deriving DecidableEq

namespace Op

def isGuard : Op → Bool
  | .guardVersion _ => true
  | .guardBranch _ _ => true
  | _ => false

instance : ToString Op where
  toString
    | .label => "label()"
    | .jump => "jump()"
    | .getField l => "getfield_gc(" ++ toString l ++ ")"
    | .foldedField l => "quasiimmut_field(" ++ toString l ++ ")"
    | .guardVersion l => "guard_not_invalidated(" ++ toString l ++ ")"
    | .guardBranch i true => "guard_true(#" ++ toString i ++ ")"
    | .guardBranch i false => "guard_false(#" ++ toString i ++ ")"
    | .setField l => "setfield_gc(" ++ toString l ++ ")"

def toJson : Op → Json
  | .label => .obj [("op", .str "label")]
  | .jump => .obj [("op", .str "jump")]
  | .getField l => .obj [("op", .str "get_field"), ("field", l.toJson)]
  | .foldedField l => .obj [("op", .str "quasi_immut_field"), ("field", l.toJson)]
  | .guardVersion l => .obj [("op", .str "guard_not_invalidated"), ("field", l.toJson)]
  | .guardBranch i b =>
    .obj [("op", .str "guard_value"), ("index", .int i), ("expected", .bool b)]
  | .setField l => .obj [("op", .str "set_field"), ("field", l.toJson)]

/-- The direction that a branch guard expects. -/
def direction? : Op → Option Bool
  | .guardBranch _ expected => some expected
  | _ => none

end Op

/-- The branch directions of a trace, in order. -/
def directions (ops : List Op) : List Bool := ops.filterMap Op.direction?

end HotLoop.Trace
