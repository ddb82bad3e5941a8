import HotLoop.Fault
import HotLoop.Lifecycle.Notice
import HotLoop.Version.Table

/-!
# Journal entries

The journal tells in order what happened inside: to versions, to artifacts, to compilations and to
the tracer. An entry becomes a line with its level, its part of the system, a message and named
values.
-/

namespace HotLoop.Journal

open Lifecycle Trace

inductive Entry where
  | versionAllocated (l : Location) (id : Nat)
  | versionInvalidated (l : Location) (stale fresh dependents : Nat)
  | guardCaptured (v : Version)
  | dependentRefused (v : Version) (h : Handle)
  | dependentDropped (v : Version) (h : Handle)
  | loopInstalled (h : Handle) (e : EntryPoint) (k : Key) (replaced : Nat)
  | bridgeInstalled (h parent : Handle) (failIndex : Nat)
  | entryRefused (h : Handle) (l : Location)
  | artifactRetired (h : Handle) (count : Nat)
  | attemptBegun (e : EntryPoint) (k : Key) (phase : Phase)
  | traceAborted (e : EntryPoint) (k : Key) (cause : Abort)
  | loopAnnounced (e : EntryPoint) (k : Key) (h : Handle) (kind : Kind) (ops : Nat)
  | bridgeAnnounced (e : EntryPoint) (k : Key) (parent bridge : Handle) (failIndex : Nat)
  | loopForgotten (h : Handle)
  /-- A notice that a logging observer received. -/
  | noticed (n : Notice)
  /-- An operation of a loop that a logging observer was told of. -/
  | operation (op : Op)
  | fieldWritten (l : Location) (value : Int) (invalidated : Bool)
  | loopRefused (h : Handle) (l : Location)
  | loopTraced (e : EntryPoint) (k : Key)
  | captureStale (l : Location)
  | branchFailed (h : Handle) (index failures : Nat)
  | bridgeTraced (h : Handle) (index : Nat)
  | traceGivenUp (e : EntryPoint) (k : Key) (cause : Abort)

namespace Entry

/-- A level, a part of the system, a message, and named values. -/
def compose (level part message : String) (values : List (String × String)) : String :=
  level ++ " jitportal::" ++ part ++ ": " ++ message
    ++ String.join (values.map fun v => " " ++ v.1 ++ "=" ++ v.2)

def ofNotice : Notice → String
  | .abort cause e k =>
    compose "INFO" "portal" "ABORT"
      [("entry", e.name), ("key", toString k), ("reason", toString cause)]
  | .compile e k h ops kind address length =>
    compose "INFO" "portal" "COMPILE"
      [("entry", e.name), ("key", toString k), ("artifact", toString h), ("kind", toString kind),
       ("ops", toString ops.length),
       ("address", "0x" ++ String.ofList (Text.hexDigits address)), ("length", toString length)]
  | .bridge e h b i ops _ _ =>
    compose "INFO" "portal" "BRIDGE"
      [("entry", e.name), ("orig", toString h), ("bridge", toString b), ("fail_index", toString i),
       ("ops", toString ops.length)]

def line : Entry → String
  | versionAllocated l id =>
    compose "DEBUG" "quasi_immut" "allocated field version"
      [("field", toString l), ("version", toString id)]
  | versionInvalidated l stale fresh dependents =>
    compose "DEBUG" "quasi_immut" "invalidated field version"
      [("field", toString l), ("stale", toString stale), ("fresh", toString fresh),
       ("dependents", toString dependents)]
  | guardCaptured v => compose "TRACE" "quasi_immut" "captured guard" [("version", toString v)]
  | dependentRefused v h =>
    compose "TRACE" "quasi_immut" "refused stale dependent"
      [("version", toString v), ("artifact", toString h)]
  | dependentDropped v h =>
    compose "TRACE" "quasi_immut" "dropped dependent"
      [("version", toString v), ("artifact", toString h)]
  | loopInstalled h e k replaced =>
    compose "DEBUG" "registry" "installed loop"
      [("handle", toString h), ("entry", e.name), ("key", toString k),
       ("replaced", toString replaced)]
  | bridgeInstalled h parent i =>
    compose "DEBUG" "registry" "installed bridge"
      [("handle", toString h), ("parent", toString parent), ("fail_index", toString i)]
  | entryRefused h l =>
    compose "DEBUG" "registry" "guard_not_invalidated failed on entry"
      [("handle", toString h), ("field", toString l)]
  | artifactRetired h count =>
    compose "DEBUG" "registry" "retired" [("handle", toString h), ("count", toString count)]
  | attemptBegun e k phase =>
    compose "DEBUG" "portal" "compiling"
      [("entry", e.name), ("key", toString k), ("from", phase.describe)]
  | traceAborted e k cause =>
    compose "DEBUG" "portal" "trace aborted"
      [("entry", e.name), ("key", toString k), ("reason", toString cause)]
  | loopAnnounced e k h kind ops =>
    compose "DEBUG" "portal" "loop compiled"
      [("entry", e.name), ("key", toString k), ("artifact", toString h), ("kind", toString kind),
       ("ops", toString ops)]
  | bridgeAnnounced e k parent b i =>
    compose "DEBUG" "portal" "bridge compiled"
      [("entry", e.name), ("key", toString k), ("orig", toString parent), ("bridge", toString b),
       ("fail_index", toString i)]
  | loopForgotten h => compose "DEBUG" "portal" "loop retired" [("artifact", toString h)]
  | noticed n => ofNotice n
  | operation op => compose "TRACE" "portal" ("  " ++ toString op) []
  | fieldWritten l value invalidated =>
    compose "TRACE" "metainterp" "setfield"
      [("object", toString l.object), ("field", l.field), ("value", toString value),
       ("invalidated", toString invalidated)]
  | loopRefused h l =>
    compose "DEBUG" "metainterp" "loop entry guard failed"
      [("handle", toString h), ("field", toString l)]
  | loopTraced e k =>
    compose "DEBUG" "metainterp" "tracing loop" [("entry", e.name), ("key", toString k)]
  | captureStale l =>
    compose "DEBUG" "metainterp" "captured version went stale before install"
      [("field", toString l)]
  | branchFailed h index failures =>
    compose "TRACE" "metainterp" "guard failed"
      [("artifact", toString h), ("index", toString index), ("failures", toString failures)]
  | bridgeTraced h index =>
    compose "DEBUG" "metainterp" "tracing bridge"
      [("artifact", toString h), ("index", toString index)]
  | traceGivenUp e k cause =>
    compose "DEBUG" "metainterp" "aborting trace"
      [("entry", e.name), ("key", toString k), ("reason", toString cause)]

end Entry

end HotLoop.Journal
