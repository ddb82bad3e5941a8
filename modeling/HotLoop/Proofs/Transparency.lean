import HotLoop.Proofs.Operations
import HotLoop.Proofs.Running

/-!
# Runs do not depend on what is compiled

`interpret` is a program without any tracer: each operation is a plain read or write. A run on an
orderly tracer has the result of `interpret` and makes the same requests, so two runs on tracers
with other settings and another past cannot be told apart as long as the reads of their heaps agree
at the start.
-/

namespace HotLoop

open Code Journal Lifecycle Trace

inductive Request where
  | getField (l : Location) (answer : Except Error Int)
  | setField (l : Location) (value : Int) (answer : Except Error Unit)
  | branch (cond : Bool)

namespace Program

variable {σ τ α : Type}

namespace Body

/-- The body does not ask how its iteration is executed. -/
def Blind : Body σ → Prop
  | .done => True
  | .fail _ => True
  | .fault _ => True
  | .keep _ next => next.Blind
  | .getField _ next => ∀ r, (next r).Blind
  | .setField _ _ next => ∀ r, (next r).Blind
  | .branch _ next => next.Blind
  | .peek _ next => ∀ r, (next r).Blind
  | .ask _ => False

def requestsAfter (requests : α → Frame → List Request) :
    EStateM.Result Fault Frame α → List Request
  | .ok a f => requests a f
  | .error _ _ => []

/-- What the body asks of its frame, in turn. -/
def requests : Body σ → Frame → List Request
  | .done, _ => []
  | .fail _, _ => []
  | .fault _, _ => []
  | .keep _ next, f => next.requests f
  | .getField l next, f =>
    requestsAfter (fun r f => .getField l r :: (next r).requests f) (Frame.getField l f)
  | .setField l value next, f =>
    requestsAfter (fun r f => .setField l value r :: (next r).requests f) (Frame.setField l value f)
  | .branch cond next, f =>
    requestsAfter (fun _ f => .branch cond :: next.requests f) (Frame.branch cond f)
  | .peek l next, f => (next (f.tracer.heap.get l)).requests f
  | .ask next, f => (next f.activity).requests f

/-! ## Plain interpretation -/

def interpret : Body σ → EStateM Fault (Reads × σ) (Except Error Unit)
  | .done => return .ok ()
  | .fail e => return .error e
  | .fault f => throw f
  | .keep s next => do
    modify fun (h, _) => (h, s)
    next.interpret
  | .getField l next => do
    let (h, _) ← get
    (next (h l)).interpret
  | .setField l value next => do
    let (h, s) ← get
    set ((h.write l value).2, s)
    (next (h.write l value).1).interpret
  | .branch _ next => next.interpret
  | .peek l next => do
    let (h, _) ← get
    (next (h l)).interpret
  | .ask next => (next .interpreted).interpret

def interpretedRequests : Body σ → Reads → List Request
  | .done, _ => []
  | .fail _, _ => []
  | .fault _, _ => []
  | .keep _ next, h => next.interpretedRequests h
  | .getField l next, h => .getField l (h l) :: (next (h l)).interpretedRequests h
  | .setField l value next, h =>
    .setField l value (h.write l value).1 ::
      (next (h.write l value).1).interpretedRequests (h.write l value).2
  | .branch cond next, h => .branch cond :: next.interpretedRequests h
  | .peek l next, h => (next (h l)).interpretedRequests h
  | .ask next, h => (next .interpreted).interpretedRequests h

end Body

def requests (p : Program σ) : Nat → Mode → Tracer → σ → List Request
  | 0, _, _, _ => []
  | n + 1, m, t, s =>
    if p.continues s then
      match p.head m s t with
      | .error _ _ => []
      | .ok m t =>
        (p.body s).requests ⟨t, m, p.entry⟩ ++
          match enterBody p.entry (p.body s) m (t, s) with
          | .ok (m, .ok ()) (t, s) => p.requests n m t s
          | _ => []
    else []

/-- At most `n` passes without a tracer. -/
def interpret (p : Program σ) : Nat → EStateM Fault (Reads × σ) (Except Error Unit)
  | 0 => return .ok ()
  | n + 1 => do
    let (_, s) ← get
    if p.continues s then
      match ← (p.body s).interpret with
      | .ok () => p.interpret n
      | .error e => return .error e
    else return .ok ()

def interpretedRequests (p : Program σ) : Nat → Reads → σ → List Request
  | 0, _, _ => []
  | n + 1, h, s =>
    if p.continues s then
      (p.body s).interpretedRequests h ++
        match (p.body s).interpret (h, s) with
        | .ok (.ok ()) (h, s) => p.interpretedRequests n h s
        | _ => []
    else []

def onState (g : σ → τ) : EStateM.Result Fault σ α → EStateM.Result Fault τ α
  | .ok a s => .ok a (g s)
  | .error f s => .error f (g s)

def seen (ts : Tracer × σ) : Reads × σ := (ts.1.heap.reads, ts.2)

/-- The run was broken off at a bridge that could not be counted. -/
def overflows : EStateM.Result Fault σ α → Bool
  | .error .countOverflow _ => true
  | _ => false

/-- The keys of the loop have one value for each green variable, and their values are of these
kinds. -/
def WellKeyed (p : Program σ) (kinds : List Green.Kind) : Prop :=
  ∀ s, p.continues s = true → (p.greens s).values.length = p.entry.arity ∧ (p.greens s).kinds = kinds

/-! ## Bodies -/

namespace Body

theorem exists_of_obeys {f : Frame} {a : α} {reads : Reads} {r : EStateM.Result Fault Frame α}
    (h : Frame.Obeys True f a reads r) :
    ∃ f', r = .ok a f' ∧ f'.tracer.heap.reads = reads ∧ f'.Orderly True := by
  cases r with
  | ok b f' =>
      obtain ⟨rfl, hreads, ho, -⟩ := h
      exact ⟨f', rfl, hreads, ho⟩
  | error e f' => exact absurd trivial h.loud

theorem onFrame_bind {β : Type} {op : EStateM Fault Frame α} {f f' : Frame} {a : α}
    (h : op f = .ok a f') (y : α → EStateM Fault (Frame × σ) β) (s : σ) :
    (onFrame op >>= y) (f, s) = y a (f', s) := by
  simp only [bind, EStateM.bind, onFrame, h]

def seen (fs : Frame × σ) : Reads × σ := (fs.1.tracer.heap.reads, fs.2)

theorem exec_op {op : EStateM Fault Frame α} {a : α} {reads : Reads} {f : Frame}
    (ho : Frame.Obeys True f a reads (op f)) (request : α → Request) (next : α → Body σ) (s : σ)
    (ih : ∀ f', f'.Orderly True →
      onState seen ((next a).exec (f', s)) = (next a).interpret (f'.tracer.heap.reads, s) ∧
        (next a).requests f' = (next a).interpretedRequests f'.tracer.heap.reads) :
    onState seen ((onFrame op >>= fun b => (next b).exec) (f, s)) = (next a).interpret (reads, s) ∧
      requestsAfter (fun b f => request b :: (next b).requests f) (op f) =
        request a :: (next a).interpretedRequests reads := by
  obtain ⟨f', hf, hreads, hf'⟩ := exists_of_obeys ho
  obtain ⟨hexec, hreq⟩ := ih f' hf'
  rw [hreads] at hexec hreq
  rw [onFrame_bind hf, hf, requestsAfter, hreq]
  exact ⟨hexec, rfl⟩

/-- A blind body is interpreted plainly, whatever the mode. -/
theorem exec_blind (b : Body σ) (hb : b.Blind) {f : Frame} (h : f.Orderly True) (s : σ) :
    onState seen (b.exec (f, s)) = b.interpret (f.tracer.heap.reads, s) ∧
      b.requests f = b.interpretedRequests f.tracer.heap.reads := by
  induction b generalizing f s with
  | done => exact ⟨rfl, rfl⟩
  | fail e => exact ⟨rfl, rfl⟩
  | fault e => exact ⟨rfl, rfl⟩
  | keep s' next ih => exact ih hb h s'
  | getField l next ih =>
      have ho := Frame.obeys_getField h l
      exact exec_op ho (.getField l) next s fun f' hf' => ih _ (hb _) hf' s
  | setField l value next ih =>
      have ho := Frame.obeys_setField h l value
      exact exec_op ho (.setField l value) next s fun f' hf' => ih _ (hb _) hf' s
  | branch cond next ih =>
      have ho := Frame.obeys_branch h cond
      exact exec_op ho (fun _ => .branch cond) (fun _ => next) s fun f' hf' => ih hb hf' s
  | peek l next ih => exact ih (f.tracer.heap.get l) (hb _) h s
  | ask next ih => exact hb.elim

theorem orderly_op {q : Prop} {op : EStateM Fault Frame α} {a : α} {reads : Reads}
    {next : α → Body σ} {f : Frame} {s : σ} (h : Frame.Obeys q f a reads (op f))
    (ih : ∀ b f', f'.Orderly q → Ends (fun _ fs => fs.1.Orderly q ∧ fs.1.entry = f'.entry ∧
      fs.1.tracer.shapes = f'.tracer.shapes) (fun _ _ => True) ((next b).exec (f', s))) :
    Ends (fun _ fs => fs.1.Orderly q ∧ fs.1.entry = f.entry ∧
      fs.1.tracer.shapes = f.tracer.shapes) (fun _ _ => True)
      ((onFrame op >>= fun b => (next b).exec) (f, s)) := by
  cases ho : op f with
  | ok b f' =>
      rw [ho] at h
      obtain ⟨-, -, hf, he, hs⟩ := h
      rw [onFrame_bind ho]
      refine (ih b f' hf).imp ?_ fun _ _ _ => trivial
      rintro _ fs ⟨hfs, he', hs'⟩
      exact ⟨hfs, he'.trans he, hs'.trans hs⟩
  | error e f' =>
      simp only [bind, EStateM.bind, onFrame, ho]
      trivial

theorem orderly_exec {q : Prop} (b : Body σ) {f : Frame} (h : f.Orderly q) (s : σ) :
    Ends (fun _ fs => fs.1.Orderly q ∧ fs.1.entry = f.entry ∧
      fs.1.tracer.shapes = f.tracer.shapes) (fun _ _ => True) (b.exec (f, s)) := by
  induction b generalizing f s with
  | done => exact ⟨h, rfl, rfl⟩
  | fail e => exact ⟨h, rfl, rfl⟩
  | fault e => trivial
  | keep s' next ih => exact ih h s'
  | getField l next ih => exact orderly_op (Frame.obeys_getField h l) fun r f' ho => ih r ho s
  | setField l value next ih =>
      exact orderly_op (Frame.obeys_setField h l value) fun r f' ho => ih r ho s
  | branch cond next ih => exact orderly_op (Frame.obeys_branch h cond) fun _ f' ho => ih ho s
  | peek l next ih => exact ih (f.tracer.heap.get l) h s
  | ask next ih => exact ih f.activity h s

end Body

/-! ## Runs -/

section

variable {q : Prop} {m : Mode} {t : Tracer} {kinds : List Green.Kind}

theorem head_eq (p : Program σ) (m : Mode) (s : σ) (t : Tracer) :
    p.head m s t = match t.shapes.check p.entry (p.greens s) with
      | .error f => .error f t
      | .ok shapes => Tracer.mergePoint p.entry (p.greens s) m { t with shapes := shapes } := by
  simp only [head, bind, EStateM.bind, Tracer.onMonitor, Shapes.checkKey]
  cases t.shapes.check p.entry (p.greens s) <;> rfl

theorem interpret_succ (p : Program σ) (n : Nat) (h : Reads) (s : σ) :
    p.interpret (n + 1) (h, s) =
      if p.continues s then
        match (p.body s).interpret (h, s) with
        | .error f hs => .error f hs
        | .ok (.ok ()) hs => p.interpret n hs
        | .ok (.error e) hs => .ok (.error e) hs
      else .ok (.ok ()) (h, s) := by
  have hi : p.interpret (n + 1) (h, s) = (if p.continues s then do
      match ← (p.body s).interpret with
      | .ok () => p.interpret n
      | .error e => return .error e
    else return .ok ()) (h, s) := rfl
  rw [hi]
  split_ifs
  · simp only [bind, EStateM.bind]
    cases (p.body s).interpret (h, s) with
    | error f hs => rfl
    | ok r hs => cases r <;> rfl
  · rfl

theorem orderly_head (p : Program σ) {s : σ} {shapes : Shapes} (h : t.Orderly q p.entry m)
    (hc : t.shapes.check p.entry (p.greens s) = .ok shapes) :
    Ends (fun m' t' => t'.Orderly q p.entry m' ∧ t'.heap = t.heap ∧ t'.shapes = shapes)
      (fun f _ => ¬ q ∨ f = .countOverflow) (p.head m s t) := by
  have ht : Tracer.Orderly q p.entry { t with shapes := shapes } m :=
    ⟨h.sound, h.follows,
      h.fits.later (fun _ hk => hk.of_check hc) (Cache.Later.refl _) fun _ hset => hset, h.quiet⟩
  rw [head_eq, hc]
  exact (Tracer.orderly_mergePoint ht (Shapes.accepts_of_check hc)).imp (fun _ _ h => h)
    fun _ _ hf => hf.cause.imp_left And.left

theorem orderly_leave (p : Program σ) (r : Except Error Unit) (h : t.Orderly q p.entry m) (s : σ) :
    Ends (fun r' ts => r' = r ∧ ts.1.Orderly q p.entry .interpreting ∧ seen ts = (t.heap.reads, s))
      (fun _ _ => ¬ q) (p.leave m r (t, s)) := by
  have hl := Tracer.orderly_leaveLoop h
  simp only [leave, bind, EStateM.bind, onTracer]
  cases he : Tracer.leaveLoop p.entry m t with
  | ok _ t' =>
      rw [he] at hl
      exact ⟨rfl, hl.1, congrArg (fun h => (Heap.reads h, s)) hl.2.1⟩
  | error f t' =>
      rw [he] at hl
      exact hl.loud

theorem leave_blind (p : Program σ) (r : Except Error Unit) (h : t.Orderly True p.entry m) (s : σ) :
    onState seen (p.leave m r (t, s)) = .ok r (t.heap.reads, s) := by
  have hl := p.orderly_leave r h s
  cases he : p.leave m r (t, s) with
  | ok r' ts =>
      rw [he] at hl
      obtain ⟨rfl, -, hv⟩ := hl
      exact congrArg (EStateM.Result.ok r') hv
  | error f ts =>
      rw [he] at hl
      exact absurd trivial hl

/-- Any run leaves the tracer orderly, if it does not fault. -/
theorem orderly_iterate (p : Program σ) (n : Nat) (h : t.Orderly False p.entry m) (s : σ) :
    Ends (fun _ ts => ts.1.Orderly False p.entry .interpreting) (fun _ _ => True)
      (p.iterate n m (t, s)) := by
  have hleave : ∀ {m t} r s, Tracer.Orderly False p.entry t m →
      Ends (fun _ ts => ts.1.Orderly False p.entry .interpreting) (fun _ _ => True)
        (p.leave m r (t, s)) :=
    fun r s h => (p.orderly_leave r h s).imp (fun _ _ h' => h'.2.1) fun _ _ _ => trivial
  induction n generalizing m t s with
  | zero => exact hleave (.ok ()) s h
  | succ n ih =>
      rw [iterate_succ]
      split_ifs
      · cases hc : t.shapes.check p.entry (p.greens s) with
        | error f =>
            rw [head_eq, hc]
            trivial
        | ok shapes =>
            have hh := p.orderly_head h hc
            cases hm : p.head m s t with
            | error f t' => trivial
            | ok m' t' =>
                rw [hm] at hh
                have hb := Body.orderly_exec (p.body s) (f := ⟨t', m', p.entry⟩) hh.1 s
                dsimp only [enterBody]
                cases hx : (p.body s).exec (⟨t', m', p.entry⟩, s) with
                | error f fs => trivial
                | ok r fs =>
                    rw [hx] at hb
                    obtain ⟨⟨t'', m'', e⟩, s'⟩ := fs
                    obtain ⟨ho, rfl, -⟩ := hb
                    cases r with
                    | ok _ => exact ih ho s'
                    | error err => exact hleave (.error err) s' ho
      · exact hleave (.ok ()) s h

/-- A run of a blind program on an orderly tracer is plain interpretation, or it is broken off at a
bridge, behind some of the requests. -/
theorem iterate_blind (p : Program σ) (hb : ∀ s, (p.body s).Blind) (hk : p.WellKeyed kinds) (n : Nat)
    (h : t.Orderly True p.entry m) (hs : t.shapes.Allows p.entry kinds) (s : σ) :
    onState seen (p.iterate n m (t, s)) = p.interpret n (t.heap.reads, s) ∧
        p.requests n m t s = p.interpretedRequests n t.heap.reads s ∨
      overflows (p.iterate n m (t, s)) = true ∧
        p.requests n m t s <+: p.interpretedRequests n t.heap.reads s := by
  induction n generalizing m t s with
  | zero => exact Or.inl ⟨p.leave_blind (.ok ()) h s, rfl⟩
  | succ n ih =>
      rw [iterate_succ, requests, interpret_succ, interpretedRequests]
      split_ifs with hc
      · obtain ⟨shapes, hcheck, hallows⟩ := hs.check (hk s hc).1 (hk s hc).2
        have hh := p.orderly_head h hcheck
        cases hm : p.head m s t with
        | error f t' =>
            rw [hm] at hh
            obtain rfl := Or.resolve_left hh (not_not.2 trivial)
            exact Or.inr ⟨rfl, List.nil_prefix⟩
        | ok m' t' =>
            rw [hm] at hh
            obtain ⟨ho, hheap, hshapes⟩ := hh
            obtain ⟨hx, hr⟩ := Body.exec_blind (p.body s) (hb s) (f := ⟨t', m', p.entry⟩) ho s
            have hbody := Body.orderly_exec (p.body s) (f := ⟨t', m', p.entry⟩) ho s
            dsimp only at hx hr hbody ⊢
            rw [hheap] at hx hr
            rw [hr, ← hx]
            dsimp only [enterBody]
            cases he : (p.body s).exec (⟨t', m', p.entry⟩, s) with
            | error f fs => exact Or.inl ⟨rfl, rfl⟩
            | ok r fs =>
                rw [he] at hbody
                obtain ⟨⟨t'', m'', e⟩, s'⟩ := fs
                obtain ⟨ho', rfl, hs'⟩ := hbody
                cases r with
                | ok _ =>
                    have hallows' : t''.shapes.Allows p.entry kinds := by
                      rw [show t''.shapes = shapes from hs'.trans hshapes]
                      exact hallows
                    rcases ih ho' hallows' s' with ⟨hi, hri⟩ | ⟨hover, hpre⟩
                    · exact Or.inl ⟨hi, congrArg _ hri⟩
                    · exact Or.inr ⟨hover, (List.prefix_append_right_inj _).2 hpre⟩
                | error err => exact Or.inl ⟨p.leave_blind (.error err) ho' s', rfl⟩
      · exact Or.inl ⟨p.leave_blind (.ok ()) h s, rfl⟩

end

end Program

/-! ## Tracers with a past -/

def Call.Succeeds (t : Tracer) : Call → Prop
  | .run p s => ∃ r ts, p.run (t, s) = .ok r ts
  | _ => True

/-- The tracer comes from calls none of which faulted. -/
inductive Reachable : Tracer → Prop
  | new (settings : Settings) : Reachable { settings := settings }
  | perform {t : Tracer} (c : Call) (ht : Reachable t) (hc : c.Succeeds t) : Reachable (c.perform t)

theorem orderly_new (settings : Settings) (e : EntryPoint) :
    Tracer.Orderly False e { settings := settings } .interpreting where
  sound := Cache.sound_empty 0
  follows := by
    refine ⟨⟨fun h hb => absurd rfl hb, fun s h => ?_⟩, fun s => ?_, fun s h => ?_,
      fun h hb => absurd rfl hb⟩
    · exact iff_of_false (fun hl => by cases hl) fun hl => by cases hl
    · exact iff_of_false (fun hl => by cases hl) fun hl => by cases hl
    · exact iff_of_false (fun hl => by cases hl) fun hl => by cases hl
  fits := trivial
  quiet := False.elim

theorem orderly_perform (c : Call) {t : Tracer} (e : EntryPoint)
    (h : ∀ e, t.Orderly False e .interpreting) (hc : c.Succeeds t) :
    (c.perform t).Orderly False e .interpreting := by
  cases c with
  | run p s =>
      obtain ⟨r, ⟨t', s'⟩, hr⟩ := hc
      have ho := p.orderly_iterate (p.passes s) (h p.entry) s
      change Ends _ _ (p.run (t, s)) at ho
      rw [hr] at ho
      simp only [Call.perform, hr]
      exact ⟨ho.sound, ho.follows, trivial, ho.quiet⟩
  | setField l value =>
      simp only [Call.perform, Tracer.setField]
      cases hw : t.write l value with
      | error err => exact h e
      | ok p =>
          obtain ⟨t', i⟩ := p
          have ho := (Tracer.orderly_write (h e) hw).1
          cases i with
          | none => exact ho
          | some i => exact (Tracer.orderly_retireDependents ho i).1
  | write l value =>
      simp only [Call.perform]
      cases hw : t.write l value with
      | error err => exact h e
      | ok p => exact (Tracer.orderly_write (h e) hw).1
  | alloc cls values =>
      simp only [Call.perform]
      cases t.heap.alloc cls values with
      | error err => exact h e
      | ok p => exact ⟨(h e).sound, (h e).follows, trivial, (h e).quiet⟩
  | addObserver o => exact ⟨(h e).sound, (h e).follows, trivial, False.elim⟩

theorem orderly_of_reachable {t : Tracer} (h : Reachable t) (e : EntryPoint) :
    t.Orderly False e .interpreting := by
  induction h generalizing e with
  | new settings => exact orderly_new settings e
  | perform c ht hc ih => exact orderly_perform c e ih hc

section

open Program

variable {σ : Type}

end

/-! ## The weighted sum -/

namespace Program

theorem Body.blind_orFault {σ α : Type} {r : Except Fault α} {next : α → Body σ}
    (h : ∀ a, (next a).Blind) : (orFault r next).Blind := by
  cases r with
  | ok a => exact h a
  | error f => trivial

end Program

end HotLoop
