import HotLoop.EntryPoint
import HotLoop.Trace.Op
import HotLoop.Version.Guards

/-!
# Artifacts

An artifact is a compiled loop, or a bridge that hangs off a guard of one. A loop knows its bridges
by the index of their guard.
-/

namespace HotLoop.Code

open Trace

inductive Artifact.Kind where
  | loop
  | bridge (parent : Handle) (failIndex : Nat)
  deriving DecidableEq

structure Artifact where
  handle : Handle
  kind : Artifact.Kind
  site : Site
  guards : Guards
  operations : List Op
  bridges : FinMap Nat Handle := ∅
  /-- How often it was entered. -/
  entries : Nat := 0

namespace Artifact

def IsLoop (a : Artifact) : Prop := a.kind = .loop

instance (a : Artifact) : Decidable a.IsLoop := inferInstanceAs (Decidable (_ = _))

def entered (a : Artifact) : Artifact := { a with entries := a.entries + 1 }

def attach (a : Artifact) (failIndex : Nat) (bridge : Handle) : Artifact :=
  { a with bridges := a.bridges.insert failIndex bridge }

/-- Forgets `bridge`, if it is the one behind the guard. -/
def detach (a : Artifact) (failIndex : Nat) (bridge : Handle) : Artifact :=
  if a.bridges.find? failIndex = some bridge then
    { a with bridges := a.bridges.erase failIndex }
  else a

end Artifact

end HotLoop.Code
