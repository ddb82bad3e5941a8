import HotLoop.Json.Scan
import HotLoop.Json.Value

/-!
# Why traces are discarded

The causes are ordered: the built-in ones as listed, then the custom ones by number. In JSON a
built-in cause is its name and a custom one an object with its number.
-/

namespace HotLoop.Trace

inductive Abort where
  | tooLong
  /-- A bridge could not be attached to its loop. -/
  | bridge
  /-- The trace did not close into a loop. -/
  | badLoop
  /-- A virtual object escaped. -/
  | escape
  /-- A folded field was written while the trace was open. -/
  | forcedWrite
  | custom (code : Nat)
  deriving DecidableEq

namespace Abort

def builtin : List Abort := [.tooLong, .bridge, .badLoop, .escape, .forcedWrite]

def rank : Abort → Nat
  | .tooLong => 0
  | .bridge => 1
  | .badLoop => 2
  | .escape => 3
  | .forcedWrite => 4
  | .custom n => 5 + n

instance : LT Abort where
  lt a b := a.rank < b.rank

instance (a b : Abort) : Decidable (a < b) := inferInstanceAs (Decidable (a.rank < b.rank))

theorem rank_injective {a b : Abort} (h : a.rank = b.rank) : a = b := by
  cases a <;> cases b <;> simp only [rank, custom.injEq] at h ⊢ <;> omega

/-- The name without a custom number. -/
def label : Abort → String
  | .tooLong => "too_long"
  | .bridge => "bridge"
  | .badLoop => "bad_loop"
  | .escape => "escape"
  | .forcedWrite => "force_quasiimmut"
  | .custom _ => "custom"

instance : ToString Abort where
  toString
    | .custom n => "custom(" ++ toString n ++ ")"
    | a => a.label

def toJson : Abort → Json
  | .tooLong => .str "too_long"
  | .bridge => .str "bridge"
  | .badLoop => .str "bad_loop"
  | .escape => .str "escape"
  | .forcedWrite => .str "forced_quasi_immutable"
  | .custom n => .obj [("custom", .int n)]

/-- The cause that a name stands for in JSON; `none` inside for the one that carries a number. -/
def named? : String → Option (Option Abort)
  | "too_long" => some (some .tooLong)
  | "bridge" => some (some .bridge)
  | "bad_loop" => some (some .badLoop)
  | "escape" => some (some .escape)
  | "forced_quasi_immutable" => some (some .forcedWrite)
  | "custom" => some none
  | _ => none

/-- Scans a cause: a name, or an object whose one member has that name. -/
def scan (cs : List Char) : Except Json.Problem (Abort × List Char) :=
  match Json.skipSpace cs with
  | [] => .error .truncated
  | '"' :: rest => do
    let (name, rest) ← Json.string rest
    match named? name with
    | some (some a) => .ok (a, rest)
    | _ => .error .mistyped
  | '\x7b' :: rest => do
    let (name, rest) ← Json.expectName rest
    match named? name with
    | none => .error .mistyped
    | some (some a) =>
      let rest ← Json.expectColon rest
      let rest ← Json.expectNull rest
      Json.closeObject a rest
    | some none =>
      let rest ← Json.expectColon rest
      let (n, rest) ← Json.expectNat 0x10000 rest
      Json.closeObject (.custom n) rest
  | _ => .error .malformed

def ofJson? (s : String) : Except Json.Problem Abort := Json.readAll scan s

end Abort

end HotLoop.Trace
