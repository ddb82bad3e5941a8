import HotLoop.Code.Cache
import HotLoop.Journal.Entry
import HotLoop.Lifecycle.Monitor
import HotLoop.Version.Tables

/-!
# Narration

The journal entries of a step on versions, on the code cache or on the monitor, told from the state
before the step. The steps themselves know nothing of the journal.
-/

namespace HotLoop

open Journal Trace

namespace Versions

def narrateRead (t : Versions) (l : Location) : List Entry :=
  match t.current? l with
  | some _ => []
  | none => [.versionAllocated l t.next]

def narrateCapture (t : Versions) (l : Location) : List Entry :=
  t.narrateRead l ++ [.guardCaptured (t.read l).2]

def narrateInvalidate (t : Versions) (l : Location) : List Entry :=
  match t.invalidate? l with
  | some (_, i) => [.versionInvalidated l i.stale.id i.fresh i.dependents.length]
  | none => []

def narrateRegister (t : Versions) (v : Version) (h : Handle) : List Entry :=
  if t.IsCurrent v then [] else [.dependentRefused v h]

def narrateUnregister (t : Versions) (v : Version) (h : Handle) : List Entry :=
  if h ∈ t.dependents v.location then [.dependentDropped v h] else []

/-- The first stale version is refused; behind it nothing is registered. -/
def narrateRegisterAll (t : Versions) (h : Handle) : List Version → List Entry
  | [] => []
  | v :: vs =>
    match t.register? v h with
    | some t => t.narrateRegisterAll h vs
    | none => [.dependentRefused v h]

def narrateRelease (t : Versions) (h : Handle) : List Version → List Entry
  | [] => []
  | v :: vs => t.narrateUnregister v h ++ ((t.unregister? v h).getD t).narrateRelease h vs

end Versions

namespace Tables

def narrateRegister (ts : Tables) (v : Version) (h : Handle) : List Entry :=
  ((ts.get? v.table).map fun t => t.narrateRegister v h).getD []

def narrateUnregister (ts : Tables) (v : Version) (h : Handle) : List Entry :=
  ((ts.get? v.table).map fun t => t.narrateUnregister v h).getD []

def narrateRegisterEach (ts : Tables) (h : Handle) (vs : List Version) : List Entry :=
  vs.flatMap fun v => ts.narrateRegister v h

def narrateRelease (ts : Tables) (h : Handle) : List Version → List Entry
  | [] => []
  | v :: vs => ts.narrateUnregister v h ++ ((ts.unregister? v h).getD ts).narrateRelease h vs

end Tables

namespace Code.Cache

def narrateRemoveAll (c : Cache) : List Handle → List Entry
  | [] => []
  | h :: hs =>
    match c.get? h with
    | none => c.narrateRemoveAll hs
    | some a =>
      c.versions.narrateRelease h a.guards.captured ++ (c.remove h a).narrateRemoveAll hs

def narrateRetire (c : Cache) (h : Handle) : List Entry :=
  match c.get? h with
  | none => []
  | some a =>
    let bridges := match a.kind with
      | .loop => a.bridges.values
      | .bridge _ _ => []
    c.versions.narrateRelease h a.guards.captured ++ (c.remove h a).narrateRemoveAll bridges
      ++ [.artifactRetired h (c.retire h).2.length]

def narrateRetireAll (c : Cache) : List Handle → List Entry
  | [] => []
  | h :: hs => c.narrateRetire h ++ (c.retire h).1.narrateRetireAll hs

def narrateInstallLoop (c : Cache) (e : EntryPoint) (k : Key) (g : Guards) (ops : List Op) :
    List Entry :=
  let refused := c.versions.narrateRegisterAll ⟨c.next⟩ g.captured
  match (c.addLoop (e.site k) g ops).2 with
  | .error _ => refused
  | .ok i =>
    let replaced := match c.loop? (e.site k) with
      | some old => (c.register g).1.narrateRetire old
      | none => []
    replaced ++ [.loopInstalled i.handle e k i.replaced.length]

def narrateInstallBridge (c : Cache) (parent : Handle) (failIndex : Nat) (g : Guards) :
    List Entry :=
  match (c.register g).2 with
  | .error _ => c.versions.narrateRegisterAll ⟨c.next⟩ g.captured
  | .ok h => [.bridgeInstalled h parent failIndex]

def narrateEnter (c : Cache) (h : Handle) : List Entry :=
  match (c.enter h).2 with
  | .guardFailed l _ => .entryRefused h l :: c.narrateRetire h
  | _ => []

end Code.Cache

namespace Lifecycle.Monitor

/-- What the logging observers write of a notice, up to the first observer that fails. -/
def narrateDelivery (d : Delivery) : List Observer → List Entry
  | [] => []
  | o :: os =>
    let own : List Entry := match o.logs, d.notice with
      | false, _ => []
      | true, .compile _ _ _ ops _ _ _ => .noticed d.notice :: ops.map .operation
      | true, _ => [.noticed d.notice]
    own ++ if o.fails o.inbox d then [] else narrateDelivery d os

/-- A step that was accepted, and the delivery of its notice. -/
def narrateStep (m : Monitor) (entry : Entry) (n : Notice) (step : Except Fault Ledger) :
    List Entry :=
  match step with
  | .ok ledger => entry :: narrateDelivery ⟨n, ledger⟩ m.observers
  | .error _ => []

/-- A report that is refused leaves no entry. -/
def narrate (m : Monitor) (s : Shapes) : Report → List Entry
  | .begin e k =>
    match s.check e k, m.ledger.begin e k with
    | .ok _, .ok _ => [.attemptBegun e k (m.ledger.phase (e.site k))]
    | _, _ => []
  | .abort cause e k =>
    match s.check e k with
    | .ok _ =>
      m.narrateStep (.traceAborted e k cause) (.abort cause e k) (m.ledger.abort cause e k)
    | .error _ => []
  | .loop e k h ops kind address length =>
    match s.check e k with
    | .ok _ =>
      m.narrateStep (.loopAnnounced e k h kind ops.length) (.compile e k h ops kind address length)
        (m.ledger.announceLoop e k h)
    | .error _ => []
  | .bridge e parent b failIndex ops address length =>
    match m.ledger.loops.find? parent with
    | some site =>
      m.narrateStep (.bridgeAnnounced e site.key parent b failIndex)
        (.bridge e parent b failIndex ops address length) (m.ledger.announceBridge e parent b)
    | none => []

/-- Only the retirement of a loop is told. -/
def narrateRetire (m : Monitor) (h : Handle) : List Entry :=
  if m.ledger.bridges.contains h = false ∧ m.ledger.loops.contains h then [.loopForgotten h] else []

end Lifecycle.Monitor

end HotLoop
