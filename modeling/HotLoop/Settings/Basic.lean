import HotLoop.Error
import HotLoop.Text.Blank

/-!
# Settings

The parameters of the tracer, and how a parameter text changes them: items between commas, each
`off`, `default` or an assignment `name=value`. Items take effect one after another, also those
before one that fails; in the end three of the settings must not be zero.
-/

namespace HotLoop

structure Settings where
  enabled : Bool := true
  /-- The passes of a loop head before its site is traced. -/
  threshold : Nat := 1039
  /-- The failures of a branch guard before a bridge is traced from it. -/
  traceEagerness : Nat := 200
  /-- The most operations that a trace may hold. -/
  traceLimit : Nat := 6000
  /-- Whether reads of quasi-immutable fields are folded into guarded constants. -/
  foldFields : Bool := true
  deriving DecidableEq

namespace Settings

/-- Settings with which short programs reach the compiler. -/
def eager : Settings := { threshold := 3, traceEagerness := 2 }

def readNat (bound : Nat) (name value : String) : Except Error Nat :=
  match Text.natural? 10 bound (Text.trimChars value.toList) with
  | some n => .ok n
  | none => .error (.parameter name (.notInteger value))

def readFlag (name value : String) : Except Error Bool :=
  match Text.trim value with
  | "1" => .ok true
  | "true" => .ok true
  | "on" => .ok true
  | "0" => .ok false
  | "false" => .ok false
  | "off" => .ok false
  | other => .error (.parameter name (.notFlag other))

/-- Sets one parameter by its name. -/
def assign (s : Settings) (name value : String) : Except Error Settings :=
  match Text.trim name with
  | "threshold" => (readNat 0x100000000 name value).map fun n => { s with threshold := n }
  | "trace_eagerness" => (readNat 0x100000000 name value).map fun n => { s with traceEagerness := n }
  | "trace_limit" => (readNat 0x10000000000000000 name value).map fun n => { s with traceLimit := n }
  | "enable_quasi_immut" => (readFlag name value).map fun b => { s with foldFields := b }
  | other => .error (.parameter other .unknown)

/-- Applies one item of a parameter text. -/
def applyItem (s : Settings) (item : List Char) : Except Error Settings :=
  if item = "off".toList then .ok { s with enabled := false }
  else if item = "default".toList then .ok {}
  else match Text.cut? '=' item with
    | some (name, value) => s.assign (String.ofList name) (String.ofList value)
    | none => .error (.parameter (String.ofList item) .noValue)

/-- Applies items in turn, and stops at the first that fails. -/
def applyItems (s : Settings) : List (List Char) → Settings × Except Error Unit
  | [] => (s, .ok ())
  | item :: items =>
    match s.applyItem item with
    | .ok s => s.applyItems items
    | .error e => (s, .error e)

def validate (s : Settings) : Except Error Unit :=
  if s.threshold = 0 then .error (.zero .threshold)
  else if s.traceEagerness = 0 then .error (.zero .traceEagerness)
  else if s.traceLimit = 0 then .error (.zero .traceLimit)
  else .ok ()

theorem validate_eq_ok_iff {s : Settings} :
    s.validate = .ok () ↔ s.threshold ≠ 0 ∧ s.traceEagerness ≠ 0 ∧ s.traceLimit ≠ 0 := by
  unfold validate
  by_cases ht : s.threshold = 0
  · simp [ht]
  · by_cases he : s.traceEagerness = 0 <;> simp [ht, he]

/-- The items of a parameter text, without blanks around them and without empty ones. -/
def items (params : String) : List (List Char) :=
  ((Text.pieces ',' params.toList).map Text.trimChars).filter fun item => item ≠ []

/-- Applies a parameter text. The settings reached are kept also if it fails. -/
def apply (s : Settings) (params : String) : Settings × Except Error Unit :=
  match s.applyItems (items params) with
  | (s, .ok ()) => (s, s.validate)
  | (s, .error e) => (s, .error e)

/-- The default settings with a parameter text applied. -/
def ofParams (params : String) : Except Error Settings :=
  match apply {} params with
  | (s, .ok ()) => .ok s
  | (_, .error e) => .error e

end Settings

end HotLoop
