import HotLoop.EntryPoint
import HotLoop.Handle
import HotLoop.Lifecycle.Phase
import HotLoop.Trace.Abort
import HotLoop.Trace.Kind
import HotLoop.Trace.Op

/-!
# Notices

What observers are told about the life of compiled code, as a line of text and as a line of JSON.
-/

namespace HotLoop.Lifecycle

open Trace

inductive Notice where
  | abort (cause : Abort) (entry : EntryPoint) (key : Key)
  | compile (entry : EntryPoint) (key : Key) (loop : Handle) (operations : List Op) (kind : Kind)
      (address length : Nat)
  | bridge (entry : EntryPoint) (parent bridge : Handle) (failIndex : Nat) (operations : List Op)
      (address length : Nat)
  deriving DecidableEq

namespace Notice

def hook : Notice → Hook
  | .abort .. => .abort
  | .compile .. => .compile
  | .bridge .. => .bridge

def listOps (ops : List Op) : String := "[" ++ ", ".intercalate (ops.map toString) ++ "]"

instance : ToString Notice where
  toString
    | .abort cause e k => "abort    " ++ e.name ++ " " ++ toString k ++ " " ++ toString cause
    | .compile e k h ops kind _ _ =>
      "compile  " ++ e.name ++ " " ++ toString k ++ " " ++ toString kind ++ " " ++ toString h ++ " "
        ++ listOps ops
    | .bridge e h b i ops _ _ =>
      "bridge   " ++ e.name ++ " " ++ toString b ++ " off " ++ toString h ++ " guard " ++ toString i
        ++ " " ++ listOps ops

def toJson : Notice → Json
  | .abort cause e k =>
    .obj [("event", .str "abort"), ("reason", cause.toJson), ("entry", .str e.name),
      ("key", k.toJson)]
  | .compile e k h ops kind address length =>
    .obj [("event", .str "compile"), ("entry", .str e.name), ("key", k.toJson),
      ("artifact", .int h.number), ("kind", kind.toJson), ("address", .int address),
      ("length", .int length), ("operations", .arr (ops.map fun op => .str (toString op)))]
  | .bridge e h b i ops address length =>
    .obj [("event", .str "bridge"), ("entry", .str e.name), ("orig", .int h.number),
      ("bridge", .int b.number), ("fail_index", .int i), ("address", .int address),
      ("length", .int length), ("operations", .arr (ops.map fun op => .str (toString op)))]

def abort? : Notice → Option Abort
  | .abort cause _ _ => some cause
  | _ => none

def loop? : Notice → Option (Key × Kind × Handle)
  | .compile _ k h _ kind _ _ => some (k, kind, h)
  | _ => none

def bridge? : Notice → Option (Handle × Handle)
  | .bridge _ h b _ _ _ _ => some (h, b)
  | _ => none

/-- The notices as JSON, each on a line of its own. -/
def jsonLines (ns : List Notice) : String :=
  String.ofList (ns.flatMap fun n => n.toJson.chars ++ ['\n'])

end Notice

end HotLoop.Lifecycle
