import HotLoop.Lifecycle.Ledger
import HotLoop.Lifecycle.Notice
import HotLoop.Shapes

/-!
# The monitor

The monitor enters each step of a compilation into its ledger and then tells its observers, in the
order in which they were added. An observer that fails stops the delivery: the observers behind it
miss that notice, and the ledger keeps the step.
-/

namespace HotLoop.Lifecycle

open Trace

/-- A notice as it was delivered, with the ledger of that moment. -/
structure Delivery where
  notice : Notice
  ledger : Ledger

/-- An observer keeps what it received. `fails` decides from that, and from the new delivery,
whether it fails; one that logs also writes each notice to the journal. -/
structure Observer where
  inbox : List Delivery := []
  logs : Bool := false
  fails : List Delivery → Delivery → Bool := fun _ _ => false

namespace Observer

def receive (o : Observer) (d : Delivery) : Observer := { o with inbox := o.inbox ++ [d] }

def notices (o : Observer) : List Notice := o.inbox.map Delivery.notice

/-- Empties the inbox. -/
def clear (o : Observer) : Observer := { o with inbox := [] }

/-- Delivers to the observers in turn, up to the first that fails, and says whether none did. -/
def deliver (d : Delivery) : List Observer → List Observer × Bool
  | [] => ([], true)
  | o :: os =>
    if o.fails o.inbox d then (o.receive d :: os, false)
    else
      let (os, all) := deliver d os
      (o.receive d :: os, all)

end Observer

/-- What a compiler reports: the beginning of an attempt, and the three ways in which a trace
ends. -/
inductive Report where
  | begin (e : EntryPoint) (k : Key)
  | abort (cause : Abort) (e : EntryPoint) (k : Key)
  | loop (e : EntryPoint) (k : Key) (h : Handle) (ops : List Op) (kind : Kind)
      (address length : Nat)
  | bridge (e : EntryPoint) (parent b : Handle) (failIndex : Nat) (ops : List Op)
      (address length : Nat)

structure Monitor where
  ledger : Ledger := {}
  observers : List Observer := []

namespace Monitor

def addObserver (m : Monitor) (o : Observer) : Monitor :=
  { m with observers := m.observers ++ [o] }

/-- Takes over a changed ledger, or ends with the fault. -/
def enter (step : Ledger → Except Fault Ledger) : EStateM Fault (Shapes × Monitor) Unit := fun s =>
  match step s.2.ledger with
  | .ok ledger => .ok () (s.1, { s.2 with ledger := ledger })
  | .error f => .error f s

def notify (n : Notice) : EStateM Fault (Shapes × Monitor) Unit := fun s =>
  let (observers, all) := Observer.deliver ⟨n, s.2.ledger⟩ s.2.observers
  let s := (s.1, { s.2 with observers := observers })
  if all then .ok () s else .error (.observerFailed n.hook) s

/-- Takes a report: it is checked, entered into the ledger, and passed on. Nobody is told that an
attempt begins. -/
def take : Report → EStateM Fault (Shapes × Monitor) Unit
  | .begin e k => do
    Shapes.checkKey e k
    enter fun l => l.begin e k
  | .abort cause e k => do
    Shapes.checkKey e k
    enter fun l => l.abort cause e k
    notify (.abort cause e k)
  | .loop e k h ops kind address length => do
    Shapes.checkKey e k
    enter fun l => l.announceLoop e k h
    notify (.compile e k h ops kind address length)
  | .bridge e parent b failIndex ops address length => do
    enter fun l => l.announceBridge e parent b
    notify (.bridge e parent b failIndex ops address length)

/-- Forgets a retired artifact and says whether it was announced and not retired before. Nobody is
told. -/
def retire (m : Monitor) (h : Handle) : Monitor × Bool :=
  match m.ledger.retire? h with
  | some ledger => ({ m with ledger := ledger }, true)
  | none => (m, false)

end Monitor

end HotLoop.Lifecycle
