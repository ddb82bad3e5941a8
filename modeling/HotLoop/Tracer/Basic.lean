import HotLoop.Heap.Basic
import HotLoop.Journal.Narration
import HotLoop.Settings.Basic

/-!
# The tracer

The tracer watches loops run. It counts how often the head of a site is passed, and while one
iteration is recorded or runs compiled code, a `Mode` says so. This file has the state, the modes
and the steps on versions, code cache and monitor with their journal entries.
-/

namespace HotLoop

open Code Journal Lifecycle Trace

/-- What a trace holds so far. -/
structure Recording where
  key : Key
  ops : List Op
  guards : Guards := ∅
  /-- The branches met so far. Their number is bounded by the trace limit alone
  (`branches_throughout`): with a limit of 32 bits it has 32 bits (`nextCount_branches`). -/
  branches : Nat := 0

inductive Mode where
  | interpreting
  | tracingLoop (r : Recording)
  | tracingBridge (parent : Handle) (failIndex : Nat) (r : Recording)
  /-- In a compiled loop that was traced with these branch directions, behind so many of them. -/
  | running (loop : Handle) (expected : List Bool) (branches : Nat)
  | runningBridge (bridge : Handle)

namespace Mode

def recording? : Mode → Option Recording
  | .tracingLoop r => some r
  | .tracingBridge _ _ r => some r
  | _ => none

def modifyRecording (f : Recording → Recording) : Mode → Mode
  | .tracingLoop r => .tracingLoop (f r)
  | .tracingBridge parent i r => .tracingBridge parent i (f r)
  | m => m

/-- The compiled loop or bridge that runs. -/
def artifact? : Mode → Option Handle
  | .running h _ _ => some h
  | .runningBridge h => some h
  | _ => none

end Mode

structure Tracer where
  settings : Settings
  heap : Heap := {}
  cache : Cache := {}
  monitor : Monitor := {}
  shapes : Shapes := ∅
  /-- The passes of each site since it was last traced. -/
  hits : FinMap Site Nat := ∅
  /-- The failures of each branch guard since a bridge was last traced from it. -/
  failures : FinMap (Handle × Nat) Nat := ∅
  /-- What happened, the latest first. -/
  journal : List Entry := []

namespace Tracer

def note (es : List Entry) (t : Tracer) : Tracer := { t with journal := es.reverse ++ t.journal }

/-- A step on the monitor, which shares the shapes of keys. -/
def onMonitor {α : Type} (step : EStateM Fault (Shapes × Monitor) α) : EStateM Fault Tracer α :=
  fun t =>
    match step (t.shapes, t.monitor) with
    | .ok a (s, m) => .ok a { t with shapes := s, monitor := m }
    | .error f (s, m) => .error f { t with shapes := s, monitor := m }

/-- A step on the code cache, which shares the shapes of keys. -/
def onCache {α : Type} (step : EStateM Fault (Shapes × Cache) α) : EStateM Fault Tracer α :=
  fun t =>
    match step (t.shapes, t.cache) with
    | .ok a (s, c) => .ok a { t with shapes := s, cache := c }
    | .error f (s, c) => .error f { t with shapes := s, cache := c }

/-- A step on the code cache that concerns no key. -/
def onArtifacts {α : Type} (step : EStateM Fault Cache α) : EStateM Fault Tracer α := fun t =>
  match step t.cache with
  | .ok a c => .ok a { t with cache := c }
  | .error f c => .error f { t with cache := c }

def report (r : Report) : EStateM Fault Tracer Unit := do
  modify fun t => t.note (t.monitor.narrate t.shapes r)
  onMonitor (Monitor.take r)

def installLoop (e : EntryPoint) (k : Key) (g : Guards) (ops : List Op) :
    EStateM Fault Tracer (Except Location LoopInstall) := do
  modify fun t => t.note (t.cache.narrateInstallLoop e k g ops)
  onCache (Cache.installLoop e k g ops)

def installBridge (parent : Handle) (failIndex : Nat) (g : Guards) (ops : List Op) :
    EStateM Fault Tracer (Except Location Handle) := do
  modify fun t => t.note (t.cache.narrateInstallBridge parent failIndex g)
  onArtifacts (Cache.installBridge parent failIndex g ops)

/-- Enters an artifact. -/
def enter (t : Tracer) (h : Handle) : Tracer × EntryCheck :=
  let (c, check) := t.cache.enter h
  ({ t.note (t.cache.narrateEnter h) with cache := c }, check)

/-- Tells the monitor of one retired artifact. -/
def forget (t : Tracer) (h : Handle) : Tracer :=
  { t.note (t.monitor.narrateRetire h) with monitor := (t.monitor.retire h).1 }

/-- Drops the failure counts of retired artifacts and tells the monitor of them. -/
def forgetAll (t : Tracer) (hs : List Handle) : Tracer :=
  hs.foldl forget { t with failures := t.failures.filterKeys fun k => decide (k.1 ∉ hs) }

/-- Retires what depended on a revoked version. -/
def retireDependents (t : Tracer) (i : Invalidation) : Tracer × List Handle :=
  let (c, retired) := t.cache.apply i
  ({ t.note (t.cache.narrateRetireAll i.dependents) with cache := c }, retired)

/-- Captures the current version of a location. -/
def capture (t : Tracer) (l : Location) : Tracer × Version :=
  let (versions, v) := t.cache.versions.read l
  ({ t.note (t.cache.versions.narrateCapture l) with
      cache := { t.cache with versions := versions } }, v)

/-- The current version of a location. -/
def readVersion (t : Tracer) (l : Location) : Tracer × Version :=
  let (versions, v) := t.cache.versions.read l
  ({ t.note (t.cache.versions.narrateRead l) with
      cache := { t.cache with versions := versions } }, v)

/-- Writes a field and leaves what depended on it alone. -/
def write (t : Tracer) (l : Location) (value : Int) : Except Error (Tracer × Option Invalidation) :=
  (t.heap.set t.cache.versions l value).map fun (heap, versions, i) =>
    let revoked := if i.isSome then t.cache.versions.narrateInvalidate l else []
    ({ t.note (revoked ++ [.fieldWritten l value i.isSome]) with
        heap := heap
        cache := { t.cache with versions := versions } }, i)

/-- Writes a field from outside any loop and retires what depended on it. -/
def setField (t : Tracer) (l : Location) (value : Int) : Except Error Tracer :=
  (t.write l value).map fun (t, i) =>
    match i with
    | none => t
    | some i =>
      let (t, retired) := t.retireDependents i
      t.forgetAll retired

end Tracer

end HotLoop
