import HotLoop.Json.Scan
import HotLoop.Json.Value

/-!
# Kinds of compiled loops

A loop stands on its own or is the way from the interpreter into an existing loop.
-/

namespace HotLoop.Trace

inductive Kind where
  | loop
  | entryBridge
  deriving DecidableEq

namespace Kind

instance : ToString Kind where
  toString
    | .loop => "loop"
    | .entryBridge => "entry bridge"

def toJson : Kind → Json
  | .loop => .str "loop"
  | .entryBridge => .str "entry_bridge"

def named? : String → Option Kind
  | "loop" => some .loop
  | "entry_bridge" => some .entryBridge
  | _ => none

/-- Scans a kind: a name, or an object whose one member has that name and the value null. -/
def scan (cs : List Char) : Except Json.Problem (Kind × List Char) :=
  match Json.skipSpace cs with
  | [] => .error .truncated
  | '"' :: rest => do
    let (name, rest) ← Json.string rest
    match named? name with
    | some k => .ok (k, rest)
    | none => .error .mistyped
  | '\x7b' :: rest => do
    let (name, rest) ← Json.expectName rest
    match named? name with
    | some k =>
      let rest ← Json.expectColon rest
      let rest ← Json.expectNull rest
      Json.closeObject k rest
    | none => .error .mistyped
  | _ => .error .malformed

def ofJson? (s : String) : Except Json.Problem Kind := Json.readAll scan s

end Kind

end HotLoop.Trace
