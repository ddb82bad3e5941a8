import HotLoop.FinMap
import HotLoop.Lifecycle.Tally

/-!
# The ledger of compilations

The ledger keeps the phase of every site, the announced loops that are not retired, the announced
bridges with the loops they extend, and the tally. Its steps follow the phases: each is refused with
a fault, and then changes nothing, if the site is not in a phase that allows it.
-/

namespace HotLoop.Lifecycle

open Trace

structure Ledger where
  phases : FinMap Site Phase := ∅
  loops : FinMap Handle Site := ∅
  bridges : FinMap Handle Handle := ∅
  tally : Tally := {}

namespace Ledger

def phase (l : Ledger) (s : Site) : Phase := l.phases.findD s .untouched

def parent? (l : Ledger) (bridge : Handle) : Option Handle := l.bridges.find? bridge

/-- An attempt begins. -/
def begin (l : Ledger) (e : EntryPoint) (k : Key) : Except Fault Ledger :=
  if l.phase (e.site k) = .compiling then .error (.attemptInProgress e k)
  else .ok { l with phases := l.phases.insert (e.site k) .compiling }

/-- A trace is discarded. One that was to become a loop ends the attempt; one that was to become a
bridge leaves the phase as it is. -/
def abort (l : Ledger) (cause : Abort) (e : EntryPoint) (k : Key) : Except Fault Ledger :=
  let tally := l.tally.add 1 (.aborts cause)
  match l.phase (e.site k) with
  | .compiling => .ok { l with phases := l.phases.insert (e.site k) .aborted, tally := tally }
  | .untouched => .error (.abortWithoutAttempt e k .untouched)
  | .aborted => .error (.abortWithoutAttempt e k .aborted)
  | _ => .ok { l with tally := tally }

/-- An attempt ends in a loop. -/
def announceLoop (l : Ledger) (e : EntryPoint) (k : Key) (loop : Handle) : Except Fault Ledger :=
  let phase := l.phase (e.site k)
  if phase ≠ .compiling then .error (.loopWithoutAttempt loop e k phase)
  else if l.loops.contains loop then .error (.announcedTwice loop)
  else .ok
    { l with
      phases := l.phases.insert (e.site k) (.compiled loop)
      loops := l.loops.insert loop (e.site k)
      tally := l.tally.add 1 .loopsCompiled }

/-- The phase of a site whose live loop `parent` gains one more bridge. A loop whose bridges can no
longer be counted gains none. -/
def bridgedPhase (bridge parent : Handle) : Phase → Except Fault Phase
  | .compiled h =>
    if h = parent then .ok (.bridged parent 1) else .error (.deadParent bridge parent (.compiled h))
  | .bridged h n =>
    if h = parent then (nextCount n).map (.bridged parent)
    else .error (.deadParent bridge parent (.bridged h n))
  | p => .error (.deadParent bridge parent p)

/-- A bridge is attached to an announced loop, which must be the live one of its site. -/
def announceBridge (l : Ledger) (e : EntryPoint) (parent bridge : Handle) : Except Fault Ledger :=
  match l.loops.find? parent with
  | none => .error (.unknownParent bridge parent)
  | some site =>
    if site.entry ≠ e.id then .error (.foreignParent bridge)
    else (bridgedPhase bridge parent (l.phase site)).map fun phase =>
      { l with
        phases := l.phases.insert site phase
        bridges := l.bridges.insert bridge parent
        tally := l.tally.add 1 .bridgesCompiled }

/-- Forgets a loop or a bridge. A handle that is not announced, or retired before, gives `none`. -/
def retire? (l : Ledger) (h : Handle) : Option Ledger :=
  if l.bridges.contains h then
    some { l with bridges := l.bridges.erase h, tally := l.tally.add 1 .bridgesRetired }
  else (l.loops.find? h).map fun site =>
    { l with
      phases :=
        if (l.phase site).liveLoop? = some h then l.phases.insert site (.retired h) else l.phases
      loops := l.loops.erase h
      tally := l.tally.add 1 .loopsRetired }

end Ledger

end HotLoop.Lifecycle
