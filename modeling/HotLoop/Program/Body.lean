import HotLoop.Tracer.Frame

/-!
# Loop bodies

A body is one iteration of a loop as a tree: it asks its frame for fields and branches, keeps a new
state of the program whenever it has one, and is done, fails, or faults. `exec` runs it in a frame.
What was kept before a failure or a fault stays.
-/

namespace HotLoop.Program

inductive Body (σ : Type) where
  | done
  | fail (e : Error)
  | fault (f : Fault)
  | keep (s : σ) (next : Body σ)
  | getField (l : Location) (next : Except Error Int → Body σ)
  | setField (l : Location) (value : Int) (next : Except Error Unit → Body σ)
  | branch (cond : Bool) (next : Body σ)
  /-- Reads the heap and leaves no trace. -/
  | peek (l : Location) (next : Except Error Int → Body σ)
  /-- Asks how the iteration is executed. -/
  | ask (next : Frame.Activity → Body σ)

namespace Body

variable {σ α : Type}

def orFail (r : Except Error α) (next : α → Body σ) : Body σ :=
  match r with
  | .ok a => next a
  | .error e => .fail e

def orFault (r : Except Fault α) (next : α → Body σ) : Body σ :=
  match r with
  | .ok a => next a
  | .error f => .fault f

def onFrame (step : EStateM Fault Frame α) : EStateM Fault (Frame × σ) α := fun (f, s) =>
  match step f with
  | .ok a f => .ok a (f, s)
  | .error e f => .error e (f, s)

def exec : Body σ → EStateM Fault (Frame × σ) (Except Error Unit)
  | .done => return .ok ()
  | .fail e => return .error e
  | .fault f => throw f
  | .keep s next => do
    modify fun (f, _) => (f, s)
    next.exec
  | .getField l next => do
    let r ← onFrame (Frame.getField l)
    (next r).exec
  | .setField l value next => do
    let r ← onFrame (Frame.setField l value)
    (next r).exec
  | .branch cond next => do
    onFrame (Frame.branch cond)
    next.exec
  | .peek l next => do
    let (f, _) ← get
    (next (f.tracer.heap.get l)).exec
  | .ask next => do
    let (f, _) ← get
    (next f.activity).exec

end Body

end HotLoop.Program
