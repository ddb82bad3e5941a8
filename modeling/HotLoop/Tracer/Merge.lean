import HotLoop.Tracer.Basic

/-!
# Loop heads

At the head of a loop a trace that has come back to its key closes, compiled code is entered if its
guards hold, and otherwise the pass is counted. A site that was passed often enough is traced.
-/

namespace HotLoop.Tracer

open Code Journal Lifecycle Trace

/-- Closes the trace of a loop: it is installed and announced, or given up if a captured version
has gone stale. -/
def closeLoop (e : EntryPoint) (r : Recording) : EStateM Fault Tracer Unit := do
  let ops := r.ops ++ [.jump]
  match ← installLoop e r.key r.guards ops with
  | .ok i =>
    modify fun t => t.forgetAll i.replaced
    report (.loop e r.key i.handle ops .loop 0 0)
  | .error l =>
    modify fun t => t.note [.captureStale l]
    report (.abort .forcedWrite e r.key)

/-- Closes the trace of a bridge, which needs its loop to be live still. -/
def closeBridge (e : EntryPoint) (parent : Handle) (failIndex : Nat) (r : Recording) :
    EStateM Fault Tracer Unit := do
  if (← get).cache.isLive parent then
    let ops := r.ops ++ [.jump]
    match ← installBridge parent failIndex r.guards ops with
    | .ok b => report (.bridge e parent b failIndex ops 0 0)
    | .error _ => report (.abort .forcedWrite e r.key)
  else report (.abort .bridge e r.key)

/-- Counts a pass of the site, and begins an attempt when there were enough. -/
def countHit (e : EntryPoint) (k : Key) : EStateM Fault Tracer Mode := do
  let t ← get
  let hits := t.hits.findD (e.site k) 0 + 1
  if hits < t.settings.threshold then
    set { t with hits := t.hits.insert (e.site k) hits }
    return .interpreting
  else
    set ({ t with hits := t.hits.insert (e.site k) 0 }.note [.loopTraced e k])
    report (.begin e k)
    return .tracingLoop { key := k, ops := [.label] }

/-- Enters the live loop of the site, or counts the pass. -/
def enterOrCount (e : EntryPoint) (k : Key) : EStateM Fault Tracer Mode := do
  let t ← get
  if t.settings.enabled then
    match t.cache.loop? (e.site k) with
    | none => countHit e k
    | some h =>
      let (t, check) := t.enter h
      match check with
      | .entered =>
        set t
        let expected := ((t.cache.get? h).map fun a => directions a.operations).getD []
        return .running h expected 0
      | .guardFailed l retired =>
        set ((t.note [.loopRefused h l]).forgetAll retired)
        countHit e k
      | .dead =>
        set t
        countHit e k
  else return .interpreting

/-- The mode in which the iteration behind a loop head with key `k` begins. A trace stays open
until its own key comes back. -/
def mergePoint (e : EntryPoint) (k : Key) (m : Mode) : EStateM Fault Tracer Mode := do
  match m with
  | .tracingLoop r =>
    if r.key = k then
      closeLoop e r
      enterOrCount e k
    else return m
  | .tracingBridge parent i r =>
    if r.key = k then
      closeBridge e parent i r
      enterOrCount e k
    else return m
  | _ => enterOrCount e k

/-- The loop is left: an open trace is given up. -/
def leaveLoop (e : EntryPoint) (m : Mode) : EStateM Fault Tracer Unit :=
  match m with
  | .tracingLoop r => report (.abort .badLoop e r.key)
  | .tracingBridge _ _ r => report (.abort .bridge e r.key)
  | _ => pure ()

/-- Counts a failure of a branch guard, and begins the trace of a bridge when there were enough. -/
def countFailure (t : Tracer) (h : Handle) (index : Nat) : Tracer × Mode :=
  match t.cache.get? h with
  | none => (t, .interpreting)
  | some a =>
    let failures := t.failures.findD (h, index) 0 + 1
    let t := t.note [.branchFailed h index failures]
    if failures < t.settings.traceEagerness then
      ({ t with failures := t.failures.insert (h, index) failures }, .interpreting)
    else
      ({ t with failures := t.failures.insert (h, index) 0 }.note [.bridgeTraced h index],
        .tracingBridge h index { key := a.site.key, ops := [] })

/-- A branch guard of the loop `h` failed: its bridge takes over, or the failure is counted. -/
def guardFailed (t : Tracer) (h : Handle) (index : Nat) : Tracer × Mode :=
  match t.cache.bridge? h index with
  | none => t.countFailure h index
  | some b =>
    let (t, check) := t.enter b
    match check with
    | .entered => (t, .runningBridge b)
    | .guardFailed _ retired => (t.forgetAll retired).countFailure h index
    | .dead => t.countFailure h index

end HotLoop.Tracer
