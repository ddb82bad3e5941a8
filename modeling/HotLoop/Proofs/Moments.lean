import HotLoop.Proofs.Steps

/-!
# Moments of a run

A moment is the frame of a loop body at its start, behind one of its operations, or where one of
them faulted. `moments` lists the moments of a run, and of a client that runs programs and in
between adds observers, allocates, and writes fields from outside.
-/

namespace HotLoop

open Lifecycle

namespace Program

variable {σ α : Type}

def Body.momentsAfter (moments : α → Frame → List Frame) :
    EStateM.Result Fault Frame α → List Frame
  | .ok a f => moments a f
  | .error _ f => [f]

def Body.moments : Body σ → Frame → List Frame
  | .done, f => [f]
  | .fail _, f => [f]
  | .fault _, f => [f]
  | .keep _ next, f => next.moments f
  | .getField l next, f => f :: momentsAfter (fun r => (next r).moments) (Frame.getField l f)
  | .setField l value next, f =>
    f :: momentsAfter (fun r => (next r).moments) (Frame.setField l value f)
  | .branch cond next, f => f :: momentsAfter (fun _ => next.moments) (Frame.branch cond f)
  | .peek l next, f => (next (f.tracer.heap.get l)).moments f
  | .ask next, f => (next f.activity).moments f

def head (p : Program σ) (m : Mode) (s : σ) : EStateM Fault Tracer Mode := do
  Tracer.onMonitor (Shapes.checkKey p.entry (p.greens s))
  Tracer.mergePoint p.entry (p.greens s) m

def moments (p : Program σ) : Nat → Mode → Tracer → σ → List Frame
  | 0, _, _, _ => []
  | n + 1, m, t, s =>
    if p.continues s then
      match p.head m s t with
      | .error _ _ => []
      | .ok m t =>
        (p.body s).moments ⟨t, m, p.entry⟩ ++
          match enterBody p.entry (p.body s) m (t, s) with
          | .ok (m, .ok ()) (t, s) => p.moments n m t s
          | _ => []
    else []

theorem pass_eq (p : Program σ) (m : Mode) (t : Tracer) (s : σ) :
    p.pass m (t, s) = match p.head m s t with
      | .error f t => .error f (t, s)
      | .ok m t => enterBody p.entry (p.body s) m (t, s) := by
  have hp : p.pass m (t, s) =
      (do onTracer (Tracer.onMonitor (Shapes.checkKey p.entry (p.greens s)))
          let m ← onTracer (Tracer.mergePoint p.entry (p.greens s) m)
          enterBody p.entry (p.body s) m) (t, s) := rfl
  rw [hp]
  simp only [head, bind, EStateM.bind, onTracer]
  cases Tracer.onMonitor (Shapes.checkKey p.entry (p.greens s)) t with
  | error f t => rfl
  | ok _ t =>
      simp only
      cases Tracer.mergePoint p.entry (p.greens s) m t with
      | error f t => rfl
      | ok m t => rfl

theorem iterate_eq_do (p : Program σ) (n : Nat) (m : Mode) (t : Tracer) (s : σ) :
    p.iterate (n + 1) m (t, s) =
      (if p.continues s then do
        let (m, r) ← p.pass m
        match r with
        | .ok () => p.iterate n m
        | .error e => p.leave m (.error e)
      else p.leave m (.ok ())) (t, s) := rfl

theorem iterate_succ (p : Program σ) (n : Nat) (m : Mode) (t : Tracer) (s : σ) :
    p.iterate (n + 1) m (t, s) =
      if p.continues s then
        match p.head m s t with
        | .error f t => .error f (t, s)
        | .ok m t =>
          match enterBody p.entry (p.body s) m (t, s) with
          | .error f ts => .error f ts
          | .ok (m, .ok ()) ts => p.iterate n m ts
          | .ok (m, .error e) ts => p.leave m (.error e) ts
      else p.leave m (.ok ()) (t, s) := by
  rw [iterate_eq_do]
  split_ifs with hc
  · simp only [bind, EStateM.bind, pass_eq]
    cases p.head m s t with
    | error f t => rfl
    | ok m t =>
        simp only
        cases enterBody p.entry (p.body s) m (t, s) with
        | error f ts => rfl
        | ok r ts =>
            obtain ⟨m, r⟩ := r
            cases r <;> rfl
  · rfl

end Program

inductive Call : Type 1 where
  | run {σ : Type} (p : Program σ) (s : σ)
  | setField (l : Location) (value : Int)
  /-- Writes the heap beside the tracer. -/
  | write (l : Location) (value : Int)
  | alloc (c : ObjectClass) (values : List (String × Int))
  | addObserver (o : Observer)

namespace Call

/-- The tracer behind the call, whether it succeeded, failed or faulted. -/
def perform : Call → Tracer → Tracer
  | .run p s, t =>
    match p.run (t, s) with
    | .ok _ (t, _) => t
    | .error _ (t, _) => t
  | .setField l value, t =>
    match t.setField l value with
    | .ok t => t
    | .error _ => t
  | .write l value, t =>
    match t.write l value with
    | .ok (t, _) => t
    | .error _ => t
  | .alloc c values, t =>
    match t.heap.alloc c values with
    | .ok (h, _) => { t with heap := h }
    | .error _ => t
  | .addObserver o, t => { t with monitor := t.monitor.addObserver o }

def moments : Call → Tracer → List Frame
  | .run p s, t => p.moments (p.passes s) .interpreting t s
  | _, _ => []

end Call

/-- The moments of all the runs among the calls. -/
def moments : List Call → Tracer → List Frame
  | [], _ => []
  | c :: cs, t => c.moments t ++ moments cs (c.perform t)

end HotLoop
