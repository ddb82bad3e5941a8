import HotLoop.Command.Arguments
import HotLoop.Program.Bundled

/-!
# Sessions

A task runs bundled programs, each on a tracer of its own. The tracers share one recording observer
and their entry points. The session keeps what was printed and the tracers of the runs that ended
well. An error or a fault ends it, and what was printed before stays.
-/

namespace HotLoop.Command

open Lifecycle

inductive Failure where
  | error (e : Error)
  | fault (f : Fault)

structure Session where
  printed : String := ""
  tracers : List Tracer := []

namespace Session

/-- What the shared observer has received: the tracer of the last run has it. -/
def notices (s : Session) : List Notice :=
  match s.tracers.getLast? with
  | none => []
  | some t => t.monitor.observers.flatMap Observer.notices

/-- The tracer of the next run. It takes over the observer and the entry points from the last. -/
def next (s : Session) (settings : Settings) (heap : Heap) : Tracer :=
  match s.tracers.getLast? with
  | none => { settings := settings, heap := heap, monitor := { observers := [{}] } }
  | some t =>
    { settings := settings, heap := heap, shapes := t.shapes,
      monitor := { observers := t.monitor.observers } }

/-- The tallies of the tracers, merged in turn. -/
def tally (s : Session) : Except Fault Tally :=
  s.tracers.foldlM (fun total t =>
    match total.merge t.monitor.ledger.tally with
    | (total, .ok ()) => .ok total
    | (_, .error f) => .error f) {}

end Session

abbrev Step (α : Type) := EStateM Failure Session α

def print (text : String) : Step Unit :=
  modify fun s => { s with printed := s.printed ++ text }

def printLine (text : String) : Step Unit := print (text ++ "\n")

def orFail {α : Type} : Except Error α → Step α
  | .ok a => return a
  | .error e => throw (.error e)

def orFault {α : Type} : Except Fault α → Step α
  | .ok a => return a
  | .error f => throw (.fault f)

/-- Runs a program on a new tracer, and gives the tracer and the last state. -/
def runProgram {σ : Type} (settings : Settings) (heap : Heap) (p : Program σ) (s : σ) :
    Step (Tracer × σ) := do
  let session ← get
  match p.run (session.next settings heap, s) with
  | .error f _ => throw (.fault f)
  | .ok (.error e) _ => throw (.error e)
  | .ok (.ok ()) (t, s) =>
    modify fun session => { session with tracers := session.tracers ++ [t] }
    return (t, s)

/-- Reads two integers around a comma; blanks around them do not count. -/
def readPair (pair : String) : Except Error (Int × Int) :=
  let read (cs : List Char) : Option Int := Text.integer? (Text.trimChars cs)
  match Text.cut? ',' pair.toList with
  | none => .error (.parameter "pair" (.notPair pair))
  | some (n, m) =>
    match read n, read m with
    | some n, some m => .ok (n, m)
    | _, _ => .error (.parameter "pair" (.notPair pair))

def sumPair (settings : Settings) (e : EntryPoint) (pair : String) : Step Unit := do
  let (n, m) ← orFail (readPair pair)
  let (_, s) ← runProgram settings {} (Program.greenSum e n m) {}
  printLine ("(" ++ toString n ++ ", " ++ toString m ++ "): total = " ++ toString s.total)

def sumPairs (settings : Settings) (e : EntryPoint) : List String → Step Unit
  | [] => return ()
  | pair :: pairs => do
    sumPair settings e pair
    sumPairs settings e pairs

def Task.perform (settings : Settings) : Task → Step Unit
  | .fieldSum a x => do
    let (heap, foo) ← orFail (Program.allocFoo {} a)
    let (_, s) ← runProgram settings heap (Program.fieldSum (Program.fieldSumEntry 0) foo)
      { x := x }
    printLine ("total = " ++ toString s.total)
  | .greenSums pairs => sumPairs settings (Program.greenSumEntry 0) pairs
  | .flipping limit flip => do
    let (_, i) ← runProgram settings {}
      (Program.flipping (Program.flippingEntry 0) limit flip) 1
    printLine ("i = " ++ toString i)
  | .scaledSum n switchAt => do
    let (heap, cfg) ← orFail (Program.allocConfig {} 1)
    let (t, s) ← runProgram settings heap
      (Program.scaledSum (Program.scaledSumEntry 0) cfg n switchAt 10) {}
    printLine ("total = " ++ toString s.total)
    let versions := t.cache.versions
    printLine ("versions: " ++ toString versions.tracked ++ " fields, "
      ++ toString versions.allocated ++ " allocated, " ++ toString versions.invalidations
      ++ " invalidations")

def versionLine : String := "jitportal 0.1.0"

/-- Prints what the observers were told: as JSON, or as text with a summary. -/
def report (json : Bool) : Step Unit := do
  let s ← get
  if json then print (Notice.jsonLines s.notices)
  else
    print (String.join (s.notices.map fun n => toString n ++ "\n"))
    printLine ""
    let tally ← orFault s.tally
    printLine (← orFault tally.summary)
    printLine versionLine

end HotLoop.Command
