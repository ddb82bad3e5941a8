import HotLoop.Tracer.Merge

/-!
# Frames

A frame is what one iteration of a loop body sees of the tracer. Its operations have the effects of
plain interpretation in every mode; beyond that they record, check branches, and give up a trace
that becomes too long or whose assumptions are written.
-/

namespace HotLoop

open Code Journal Lifecycle Trace

structure Frame where
  tracer : Tracer
  mode : Mode
  entry : EntryPoint

namespace Frame

/-- Gives up the open trace, if there is one. -/
def abortTrace (cause : Abort) : EStateM Fault Frame Unit := fun f =>
  match f.mode.recording? with
  | none => .ok () f
  | some r =>
    let t := f.tracer.note [.traceGivenUp f.entry r.key cause]
    match Tracer.report (.abort cause f.entry r.key) t with
    | .ok () t => .ok () { f with tracer := t, mode := .interpreting }
    | .error e t => .error e { f with tracer := t, mode := .interpreting }

/-- Records an operation while tracing. -/
def record (op : Op) : EStateM Fault Frame Unit := do
  let f ← get
  match f.mode.recording? with
  | none => return ()
  | some r =>
    let mode := f.mode.modifyRecording fun r => { r with ops := r.ops ++ [op] }
    set { f with mode := mode }
    if f.tracer.settings.traceLimit < r.ops.length + 1 then abortTrace .tooLong

/-- Captures the version of `l` for the open trace. Says whether `l` was not guarded before. -/
def guardField (l : Location) (f : Frame) : Frame × Bool :=
  let (t, v) := f.tracer.capture l
  match f.mode.recording?.bind fun r => r.guards.push? v with
  | none => ({ f with tracer := t }, false)
  | some g =>
    let mode := f.mode.modifyRecording fun r => { r with guards := g }
    ({ f with tracer := t, mode := mode }, true)

/-- Records the read of `l`, as a guarded constant if it is quasi-immutable. -/
def recordRead (l : Location) : EStateM Fault Frame Unit := do
  let f ← get
  let quasi := f.tracer.settings.foldFields && (f.tracer.heap.isQuasi l).toOption.getD false
  if quasi then
    let (f, new) := f.guardField l
    set f
    record (.foldedField l)
    if new then record (.guardVersion l)
  else record (.getField l)

def getField (l : Location) : EStateM Fault Frame (Except Error Int) := do
  let f ← get
  match f.tracer.heap.get l with
  | .error e => return .error e
  | .ok value =>
    if f.mode.recording?.isSome then recordRead l
    return .ok value

/-- What a write that revoked a version does to code and to the open trace. -/
def afterRevocation (i : Invalidation) : EStateM Fault Frame Unit := do
  let f ← get
  let (t, retired) := f.tracer.retireDependents i
  let mode := if f.mode.artifact?.any (· ∈ retired) then .interpreting else f.mode
  set { f with tracer := t.forgetAll retired, mode := mode }
  if mode.recording?.any fun r => r.guards.Covers i.stale.location then abortTrace .forcedWrite

def setField (l : Location) (value : Int) : EStateM Fault Frame (Except Error Unit) := do
  record (.setField l)
  let f ← get
  match f.tracer.write l value with
  | .error e => return .error e
  | .ok (t, i) =>
    set { f with tracer := t }
    match i with
    | none => return .ok ()
    | some i =>
      afterRevocation i
      return .ok ()

/-- Takes a branch. In compiled code another direction than traced is a failure of its guard, and
beyond the branches that were traced compiled code is left. -/
def branch (cond : Bool) : EStateM Fault Frame Unit := do
  let f ← get
  match f.mode with
  | .interpreting => return ()
  | .runningBridge _ => return ()
  | .running h expected n =>
    match expected[n]? with
    | none => set { f with mode := .interpreting }
    | some direction =>
      if direction = cond then set { f with mode := .running h expected (n + 1) }
      else
        let (t, mode) := f.tracer.guardFailed h n
        set { f with tracer := t, mode := mode }
  | _ =>
    let index := (f.mode.recording?.map Recording.branches).getD 0
    let mode := f.mode.modifyRecording fun r => { r with branches := index + 1 }
    set { f with mode := mode }
    record (.guardBranch index cond)

/-- How the iteration is executed. -/
inductive Activity where
  | tracing
  | compiled
  | interpreted
  deriving DecidableEq

def activity (f : Frame) : Activity :=
  if f.mode.recording?.isSome then .tracing
  else if f.mode.artifact?.isSome then .compiled
  else .interpreted

end Frame

end HotLoop
