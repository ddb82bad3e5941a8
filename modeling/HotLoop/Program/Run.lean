import HotLoop.Program.Body

/-!
# Runs of a program

A program is a loop over a state. A run passes the loop head and then the body until the condition
fails, the body fails, or the passes that the program allows itself are used up. An open trace is
given up when the loop is left; a fault leaves everything as it is.
-/

namespace HotLoop

structure Program (σ : Type) where
  entry : EntryPoint
  /-- The green values at the loop head. -/
  greens : σ → Key
  /-- The loop condition. -/
  continues : σ → Bool
  body : σ → Program.Body σ
  /-- A bound on the passes of a run. -/
  passes : σ → Nat

namespace Program

variable {σ α : Type}

def onTracer (step : EStateM Fault Tracer α) : EStateM Fault (Tracer × σ) α := fun (t, s) =>
  match step t with
  | .ok a t => .ok a (t, s)
  | .error f t => .error f (t, s)

/-- Runs a body in a frame of this mode, and says in which mode it ends. -/
def enterBody (e : EntryPoint) (b : Body σ) (m : Mode) :
    EStateM Fault (Tracer × σ) (Mode × Except Error Unit) := fun (t, s) =>
  match b.exec (⟨t, m, e⟩, s) with
  | .ok r (f, s) => .ok (f.mode, r) (f.tracer, s)
  | .error e (f, s) => .error e (f.tracer, s)

/-- One pass: the loop head and then the body. -/
def pass (p : Program σ) (m : Mode) :
    EStateM Fault (Tracer × σ) (Mode × Except Error Unit) := do
  let (_, s) ← get
  let k := p.greens s
  onTracer (Tracer.onMonitor (Shapes.checkKey p.entry k))
  let m ← onTracer (Tracer.mergePoint p.entry k m)
  enterBody p.entry (p.body s) m

/-- Leaves the loop with the answer of its last pass. -/
def leave (p : Program σ) (m : Mode) (r : Except Error Unit) :
    EStateM Fault (Tracer × σ) (Except Error Unit) := do
  onTracer (Tracer.leaveLoop p.entry m)
  return r

/-- At most `n` passes, the first of them in mode `m`. -/
def iterate (p : Program σ) : Nat → Mode → EStateM Fault (Tracer × σ) (Except Error Unit)
  | 0, m => p.leave m (.ok ())
  | n + 1, m => do
    let (_, s) ← get
    if p.continues s then
      let (m, r) ← p.pass m
      match r with
      | .ok () => p.iterate n m
      | .error e => p.leave m (.error e)
    else p.leave m (.ok ())

def run (p : Program σ) : EStateM Fault (Tracer × σ) (Except Error Unit) := do
  let (_, s) ← get
  p.iterate (p.passes s) .interpreting

end Program

end HotLoop
