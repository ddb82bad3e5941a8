import HotLoop.EntryPoint
import HotLoop.Lifecycle.Phase

/-!
# Faults

A fault is a broken contract: a key of the wrong shape, a notification out of order, an observer
that fails, arithmetic beyond 64 bits, or a count beyond 32. It ends the step in which it happens.
-/

namespace HotLoop

open Lifecycle

inductive Fault where
  /-- The key has not one value for each green variable. -/
  | keyLength (key : Key) (entry : EntryPoint)
  /-- A value is of another kind than in the first key accepted for the entry point. -/
  | keyKind (key : Key) (entry : EntryPoint) (green : String)
  | attemptInProgress (entry : EntryPoint) (key : Key)
  | abortWithoutAttempt (entry : EntryPoint) (key : Key) (phase : Phase)
  | loopWithoutAttempt (loop : Handle) (entry : EntryPoint) (key : Key) (phase : Phase)
  | announcedTwice (loop : Handle)
  | unknownParent (bridge parent : Handle)
  | foreignParent (bridge : Handle)
  | deadParent (bridge parent : Handle) (phase : Phase)
  | notLiveLoop (parent : Handle)
  | observerFailed (hook : Hook)
  | addOverflow
  | mulOverflow
  /-- A count of bridges has reached its last number. -/
  | countOverflow
  deriving DecidableEq

namespace Fault

def message : Fault → String
  | .keyLength k e =>
    "malformed specialization key " ++ toString k ++ " for entry point '" ++ e.name ++ "' (greens: "
      ++ Text.quoteAll e.greens ++ ")"
  | .keyKind k e green =>
    "malformed specialization key " ++ toString k ++ " for entry point '" ++ e.name ++ "' (green '"
      ++ green ++ "')"
  | .attemptInProgress e k =>
    "trace for " ++ toString e ++ " " ++ toString k
      ++ " started while another attempt for the same key is in progress"
  | .abortWithoutAttempt e k p =>
    "abort reported for " ++ toString e ++ " " ++ toString k ++ " with no trace attempt (state "
      ++ p.describe ++ ")"
  | .loopWithoutAttempt h e k p =>
    "loop " ++ toString h ++ " for " ++ toString e ++ " " ++ toString k
      ++ " compiled without a trace attempt (state " ++ p.describe ++ ")"
  | .announcedTwice h => "artifact " ++ toString h ++ " announced twice"
  | .unknownParent b h =>
    "bridge " ++ toString b ++ " attached to " ++ toString h
      ++ " before that loop was compiled or after it was retired"
  | .foreignParent b => "bridge " ++ toString b ++ " attached to a loop of another entry point"
  | .deadParent b h p =>
    "bridge " ++ toString b ++ " attached to " ++ toString h ++ " which is not live (state "
      ++ p.describe ++ ")"
  | .notLiveLoop h => "bridge attached to " ++ toString h ++ " which is not a live loop"
  | .observerFailed hook => "observer failed in " ++ toString hook
  | .addOverflow => "attempt to add with overflow"
  | .mulOverflow => "attempt to multiply with overflow"
  | .countOverflow => "attempt to add with overflow"

end Fault

/-! ## Signed arithmetic of 64 bits -/

def FitsWord (i : Int) : Prop := -0x8000000000000000 ≤ i ∧ i < 0x8000000000000000

instance (i : Int) : Decidable (FitsWord i) := inferInstanceAs (Decidable (_ ∧ _))

def addWord (a b : Int) : Except Fault Int :=
  if FitsWord (a + b) then .ok (a + b) else .error .addOverflow

def mulWord (a b : Int) : Except Fault Int :=
  if FitsWord (a * b) then .ok (a * b) else .error .mulOverflow

/-! ## Counts of 32 bits -/

/-- The count behind `n`. -/
def nextCount (n : Nat) : Except Fault Nat :=
  if n + 1 < 0x100000000 then .ok (n + 1) else .error .countOverflow

theorem nextCount_eq_ok_iff {n m : Nat} :
    nextCount n = .ok m ↔ n + 1 < 0x100000000 ∧ m = n + 1 := by
  by_cases h : n + 1 < 0x100000000
  · simp [nextCount, h, eq_comm]
  · simp [nextCount, h]

theorem nextCount_eq_error_iff {n : Nat} {f : Fault} :
    nextCount n = .error f ↔ 0x100000000 ≤ n + 1 ∧ f = .countOverflow := by
  by_cases h : n + 1 < 0x100000000
  · simp [nextCount, h, Nat.not_le_of_lt h]
  · simp [nextCount, h, Nat.le_of_not_lt h, eq_comm]

end HotLoop
