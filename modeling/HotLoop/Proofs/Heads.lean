import HotLoop.Proofs.Carrying
import HotLoop.Proofs.Operations

/-!
# Heads and writes of a run

A run passes loop heads, and its bodies write fields. `heads` lists the frames in which a head is
passed, behind the check of its key, and `writes` the writes, each with the frame before it. An
invariant of frames may count writes of some kind: it is carried along moments, heads and writes,
and tells between the calls how many such writes were made.
-/

namespace HotLoop

open Journal Lifecycle Trace

namespace Program

variable {σ α : Type}

/-! ## What is passed and written -/

def Body.writesAfter (writes : α → Frame → List (Frame × Location)) :
    EStateM.Result Fault Frame α → List (Frame × Location)
  | .ok a f => writes a f
  | .error _ _ => []

def Body.writes : Body σ → Frame → List (Frame × Location)
  | .done, _ => []
  | .fail _, _ => []
  | .fault _, _ => []
  | .keep _ next, f => next.writes f
  | .getField l next, f => writesAfter (fun r => (next r).writes) (Frame.getField l f)
  | .setField l value next, f =>
    (f, l) :: writesAfter (fun r => (next r).writes) (Frame.setField l value f)
  | .branch cond next, f => writesAfter (fun _ => next.writes) (Frame.branch cond f)
  | .peek l next, f => (next (f.tracer.heap.get l)).writes f
  | .ask next, f => (next f.activity).writes f

def writes (p : Program σ) : Nat → Mode → Tracer → σ → List (Frame × Location)
  | 0, _, _, _ => []
  | n + 1, m, t, s =>
    if p.continues s then
      match p.head m s t with
      | .error _ _ => []
      | .ok m t =>
        (p.body s).writes ⟨t, m, p.entry⟩ ++
          match enterBody p.entry (p.body s) m (t, s) with
          | .ok (m, .ok ()) (t, s) => p.writes n m t s
          | _ => []
    else []

def headOf (p : Program σ) (m : Mode) (t : Tracer) (s : σ) : List (Frame × Key) :=
  match Tracer.onMonitor (Shapes.checkKey p.entry (p.greens s)) t with
  | .ok _ t => [(⟨t, m, p.entry⟩, p.greens s)]
  | .error _ _ => []

def heads (p : Program σ) : Nat → Mode → Tracer → σ → List (Frame × Key)
  | 0, _, _, _ => []
  | n + 1, m, t, s =>
    if p.continues s then
      p.headOf m t s ++
        match p.head m s t with
        | .error _ _ => []
        | .ok m t =>
          match enterBody p.entry (p.body s) m (t, s) with
          | .ok (m, .ok ()) (t, s) => p.heads n m t s
          | _ => []
    else []

end Program

namespace Call

def writes : Call → Tracer → List (Frame × Location)
  | .run p s, t => p.writes (p.passes s) .interpreting t s
  | _, _ => []

def heads : Call → Tracer → List (Frame × Key)
  | .run p s, t => p.heads (p.passes s) .interpreting t s
  | _, _ => []

/-- The call is no run. -/
def Outside : Call → Prop
  | .run _ _ => False
  | _ => True

end Call

def writes : List Call → Tracer → List (Frame × Location)
  | [], _ => []
  | c :: cs, t => c.writes t ++ writes cs (c.perform t)

/-- The loop heads of all the runs among the calls. -/
def heads : List Call → Tracer → List (Frame × Key)
  | [], _ => []
  | c :: cs, t => c.heads t ++ heads cs (c.perform t)

/-! ## The entry point of a frame -/

namespace Frame

variable {α : Type}

def Stays (f : Frame) (r : EStateM.Result Fault Frame α) : Prop :=
  Ends (fun _ f' => f'.entry = f.entry) (fun _ f' => f'.entry = f.entry) r

theorem stays_abortTrace (cause : Abort) (f : Frame) : f.Stays (abortTrace cause f) :=
  ends_abortTrace (Q := fun _ f' => f'.entry = f.entry) (fun _ => rfl) fun _ _ =>
    Ends.of_forall (fun _ _ => rfl) fun _ _ => rfl

theorem stays_record (op : Op) (f : Frame) : f.Stays (record op f) :=
  ends_record (Q := fun _ f' => f'.entry = f.entry) (fun _ => rfl) (fun _ _ _ => rfl) fun _ _ _ =>
    stays_abortTrace .tooLong (f.recorded op)

theorem stays_getField (l : Location) (f : Frame) : f.Stays (getField l f) := by
  have hrecord : ∀ op (f₁ : Frame), f₁.entry = f.entry →
      Ends (fun _ f' => f'.entry = f.entry) (fun _ f' => f'.entry = f.entry) (record op f₁) :=
    fun op f₁ h₁ => (stays_record op f₁).imp (fun _ _ h => h.trans h₁) fun _ _ h => h.trans h₁
  exact ends_getField_of_record rfl hrecord fun _ _ _ _ => (guardField_entry l f).1

theorem stays_afterRevocation (i : Invalidation) (f : Frame) : f.Stays (afterRevocation i f) :=
  ends_afterRevocation (Q := fun _ f' => f'.entry = f.entry) (fun _ => rfl) fun _ =>
    stays_abortTrace .forcedWrite (f.revoked i)

theorem stays_storeField (l : Location) (value : Int) (f : Frame) :
    f.Stays (storeField l value f) :=
  ends_storeField (fun _ _ => rfl) (fun _ _ => rfl) fun t i _ =>
    stays_afterRevocation i { f with tracer := t }

theorem stays_setField (l : Location) (value : Int) (f : Frame) : f.Stays (setField l value f) := by
  rw [setField_eq]
  refine Ends.bind ((stays_record _ f).imp (fun _ f' hf' => ?_) fun _ _ hf' => hf')
  exact (stays_storeField l value f').imp (fun _ _ h => h.trans hf') fun _ _ h => h.trans hf'

theorem stays_branch (cond : Bool) (f : Frame) : f.Stays (branch cond f) :=
  ends_branch (P := fun f' => f'.entry = f.entry) rfl (fun _ _ => stays_record _ _)
    (fun _ _ _ _ => rfl) (fun _ _ _ _ => rfl) fun _ _ _ _ => rfl

end Frame

/-! ## Invariants that count writes -/

namespace Frame

/-- `P n` holds of the tracer while no loop runs. -/
def AtRest (P : Nat → Frame → Prop) (n : Nat) (t : Tracer) : Prop :=
  ∀ e, P n ⟨t, .interpreting, e⟩

/-- `P` is kept by all that a run consists of, and counts the writes that pass `w`. -/
structure Invariant (P : Nat → Frame → Prop) (w : Frame × Location → Bool) : Prop where
  stop : ∀ {n f}, P n f → AtRest P n f.tracer
  checkKey : ∀ {n f} k, P n f →
    Ends (fun _ t => P n { f with tracer := t }) (fun _ t => P n { f with tracer := t })
      (Tracer.onMonitor (Shapes.checkKey f.entry k) f.tracer)
  mergePoint : ∀ {n f} k, P n f → f.tracer.shapes.Accepts f.entry k →
    Ends (fun m t => P n ⟨t, m, f.entry⟩) (fun _ t => P n ⟨t, .interpreting, f.entry⟩)
      (Tracer.mergePoint f.entry k f.mode f.tracer)
  leaveLoop : ∀ {n f}, P n f →
    Ends (fun _ t => P n ⟨t, .interpreting, f.entry⟩) (fun _ t => P n ⟨t, .interpreting, f.entry⟩)
      (Tracer.leaveLoop f.entry f.mode f.tracer)
  getField : ∀ {n f} l, P n f → Ends (fun _ => P n) (fun _ => P n) (getField l f)
  setField : ∀ {n f} l value, P n f →
    Ends (fun _ => P (n + [(f, l)].countP w)) (fun _ => P (n + [(f, l)].countP w))
      (setField l value f)
  branch : ∀ {n f} cond, P n f → Ends (fun _ => P n) (fun _ => P n) (branch cond f)

end Frame

namespace Program

variable {σ α : Type} {P : Nat → Frame → Prop} {w : Frame × Location → Bool} {n : Nat}

def BodyCounts (P : Nat → Frame → Prop) (w : Frame × Location → Bool) (e : EntryPoint) (n : Nat)
    (ms : List Frame) (ws : List (Frame × Location))
    (r : EStateM.Result Fault (Frame × σ) (Except Error Unit)) : Prop :=
  (∀ f ∈ ms, ∃ k, P k f) ∧ (∀ x ∈ ws, ∃ k, P k x.1) ∧
    Ends (fun _ fs => P (n + ws.countP w) fs.1 ∧ fs.1.entry = e)
      (fun _ fs => P (n + ws.countP w) fs.1) r

theorem bodyCounts_op {op : EStateM Fault Frame α} {next : α → Body σ} {f : Frame} {s : σ}
    (ws : List (Frame × Location)) (h : P n f) (hws : ∀ x ∈ ws, ∃ k, P k x.1)
    (hop : Ends (fun _ => P (n + ws.countP w)) (fun _ => P (n + ws.countP w)) (op f))
    (hstay : f.Stays (op f))
    (ih : ∀ a g k, P k g →
      BodyCounts P w g.entry k ((next a).moments g) ((next a).writes g) ((next a).exec (g, s))) :
    BodyCounts P w f.entry n (f :: Body.momentsAfter (fun a => (next a).moments) (op f))
      (ws ++ Body.writesAfter (fun a => (next a).writes) (op f))
      ((Body.onFrame op >>= fun a => (next a).exec) (f, s)) := by
  simp only [bind, EStateM.bind, Body.onFrame]
  cases ho : op f with
  | ok a g =>
      rw [ho] at hop hstay
      obtain ⟨hms, hnext, hend⟩ := ih a g _ hop
      rw [hstay] at hend
      refine ⟨List.forall_mem_cons.2 ⟨⟨n, h⟩, hms⟩, List.forall_mem_append.2 ⟨hws, hnext⟩, ?_⟩
      rw [List.countP_append, ← Nat.add_assoc]
      exact hend
  | error e g =>
      rw [ho] at hop
      refine ⟨List.forall_mem_cons.2 ⟨⟨n, h⟩, List.forall_mem_singleton.2 ⟨_, hop⟩⟩, ?_, ?_⟩
      · exact List.forall_mem_append.2 ⟨hws, List.forall_mem_nil _⟩
      · rw [Body.writesAfter, List.append_nil]
        exact hop

theorem bodyCounts_exec (hP : Frame.Invariant P w) (b : Body σ) {f : Frame} (h : P n f) (s : σ) :
    BodyCounts P w f.entry n (b.moments f) (b.writes f) (b.exec (f, s)) := by
  induction b generalizing n f s with
  | done => exact ⟨List.forall_mem_singleton.2 ⟨n, h⟩, List.forall_mem_nil _, h, rfl⟩
  | fail e => exact ⟨List.forall_mem_singleton.2 ⟨n, h⟩, List.forall_mem_nil _, h, rfl⟩
  | fault e => exact ⟨List.forall_mem_singleton.2 ⟨n, h⟩, List.forall_mem_nil _, h⟩
  | keep s' next ih => exact ih h s'
  | getField l next ih =>
      exact bodyCounts_op [] h (List.forall_mem_nil _) (hP.getField l h)
        (Frame.stays_getField l f) fun a g k hg => ih a hg s
  | setField l value next ih =>
      exact bodyCounts_op [(f, l)] h (List.forall_mem_singleton.2 ⟨n, h⟩)
        (hP.setField l value h) (Frame.stays_setField l value f) fun a g k hg => ih a hg s
  | branch cond next ih =>
      exact bodyCounts_op [] h (List.forall_mem_nil _) (hP.branch cond h)
        (Frame.stays_branch cond f) fun _ g k hg => ih hg s
  | peek l next ih => exact ih (f.tracer.heap.get l) h s
  | ask next ih => exact ih f.activity h s

/-! ## Runs -/

structure RunCounts (P : Nat → Frame → Prop) (w : Frame × Location → Bool) (n : Nat)
    (ms : List Frame) (hs : List (Frame × Key)) (ws : List (Frame × Location))
    (r : EStateM.Result Fault (Tracer × σ) (Except Error Unit)) : Prop where
  moments : ∀ f ∈ ms, ∃ k, P k f
  heads : ∀ x ∈ hs, (∃ k, P k x.1) ∧ x.1.tracer.shapes.Accepts x.1.entry x.2
  writes : ∀ x ∈ ws, ∃ k, P k x.1
  ends : Ends (fun _ ts => Frame.AtRest P (n + ws.countP w) ts.1)
    (fun _ ts => Frame.AtRest P (n + ws.countP w) ts.1) r

variable {t : Tracer} {m : Mode}

theorem atRest_leave (hP : Frame.Invariant P w) (p : Program σ) (r : Except Error Unit) (s : σ)
    (h : P n ⟨t, m, p.entry⟩) :
    Ends (fun _ ts => Frame.AtRest P n ts.1) (fun _ ts => Frame.AtRest P n ts.1)
      (p.leave m r (t, s)) := by
  have hl := hP.leaveLoop h
  simp only [leave, bind, EStateM.bind, onTracer]
  dsimp only at hl
  cases he : Tracer.leaveLoop p.entry m t with
  | ok _ t' =>
      rw [he] at hl
      exact hP.stop hl
  | error e t' =>
      rw [he] at hl
      exact hP.stop hl

theorem accepts_onMonitor_checkKey (e : EntryPoint) (k : Key) (t : Tracer) :
    Ends (fun _ t' => t'.shapes.Accepts e k) (fun _ _ => True)
      (Tracer.onMonitor (Shapes.checkKey e k) t) := by
  unfold Tracer.onMonitor Shapes.checkKey
  cases hc : t.shapes.check e k with
  | error f => trivial
  | ok shapes => exact Shapes.accepts_of_check hc

theorem counts_head (hP : Frame.Invariant P w) (p : Program σ) (s : σ) (h : P n ⟨t, m, p.entry⟩) :
    (∀ x ∈ p.headOf m t s, (∃ k, P k x.1) ∧ x.1.tracer.shapes.Accepts x.1.entry x.2) ∧
      Ends (fun m' t' => P n ⟨t', m', p.entry⟩) (fun _ t' => Frame.AtRest P n t')
        (p.head m s t) := by
  have hk := hP.checkKey (p.greens s) h
  have hacc := accepts_onMonitor_checkKey p.entry (p.greens s) t
  simp only [headOf, head, bind, EStateM.bind]
  dsimp only at hk
  cases he : Tracer.onMonitor (Shapes.checkKey p.entry (p.greens s)) t with
  | error f t' =>
      rw [he] at hk
      exact ⟨List.forall_mem_nil _, hP.stop hk⟩
  | ok _ t' =>
      rw [he] at hk hacc
      refine ⟨List.forall_mem_singleton.2 ⟨⟨n, hk⟩, hacc⟩, ?_⟩
      exact (hP.mergePoint (p.greens s) hk hacc).imp (fun _ _ h => h) fun _ _ h => hP.stop h

theorem runCounts_iterate (hP : Frame.Invariant P w) (p : Program σ) (passes : Nat) {s : σ}
    (h : P n ⟨t, m, p.entry⟩) :
    RunCounts P w n (p.moments passes m t s) (p.heads passes m t s) (p.writes passes m t s)
      (p.iterate passes m (t, s)) := by
  induction passes generalizing n m t s with
  | zero =>
      exact ⟨List.forall_mem_nil _, List.forall_mem_nil _, List.forall_mem_nil _,
        atRest_leave hP p (.ok ()) s h⟩
  | succ passes ih =>
      rw [iterate_succ, moments, heads, writes]
      split_ifs
      · obtain ⟨hhead, hh⟩ := counts_head hP p s h
        cases hm : p.head m s t with
        | error e t' =>
            rw [hm] at hh
            refine ⟨List.forall_mem_nil _, ?_, List.forall_mem_nil _, hh⟩
            rw [List.append_nil]
            exact hhead
        | ok m' t' =>
            rw [hm] at hh
            obtain ⟨hms, hws, hend⟩ := bodyCounts_exec hP (p.body s) hh s
            simp only [enterBody]
            cases hx : (p.body s).exec (⟨t', m', p.entry⟩, s) with
            | error e fs =>
                rw [hx] at hend
                simp only [List.append_nil]
                exact ⟨hms, hhead, hws, hP.stop hend⟩
            | ok r fs =>
                rw [hx] at hend
                obtain ⟨f', s'⟩ := fs
                obtain ⟨hend, he⟩ := hend
                have he : f'.entry = p.entry := he
                have hf' : P (n + ((p.body s).writes ⟨t', m', p.entry⟩).countP w)
                    ⟨f'.tracer, f'.mode, p.entry⟩ := by
                  have hf : (⟨f'.tracer, f'.mode, p.entry⟩ : Frame) = f' := by rw [← he]
                  rw [hf]
                  exact hend
                cases r with
                | ok _ =>
                    obtain ⟨hms', hhs', hws', hend'⟩ := ih (s := s') hf'
                    rw [Nat.add_assoc, ← List.countP_append] at hend'
                    exact ⟨List.forall_mem_append.2 ⟨hms, hms'⟩,
                      List.forall_mem_append.2 ⟨hhead, hhs'⟩,
                      List.forall_mem_append.2 ⟨hws, hws'⟩, hend'⟩
                | error e =>
                    simp only [List.append_nil]
                    exact ⟨hms, hhead, hws, atRest_leave hP p (.error e) s' hf'⟩
      · exact ⟨List.forall_mem_nil _, List.forall_mem_nil _, List.forall_mem_nil _,
          atRest_leave hP p (.ok ()) s h⟩

end Program

/-! ## Clients -/

namespace Call

variable {P : Nat → Frame → Prop} {w : Frame × Location → Bool} {n : Nat} {t : Tracer}

/-- Calls from outside keep what writes, retiring, allocating and further observers keep. -/
theorem keeps_outside {K : Tracer → Prop} {c : Call} (hc : c.Outside) (h : K t)
    (hwrite : ∀ {l value t' i}, t.write l value = .ok (t', i) → K t')
    (hretire : ∀ {t'} i, K t' → K ((t'.retireDependents i).1.forgetAll (t'.retireDependents i).2))
    (halloc : ∀ heap, K { t with heap := heap })
    (hobserver : ∀ o, K { t with monitor := t.monitor.addObserver o }) : K (c.perform t) := by
  cases c with
  | run p s => cases hc
  | setField l value =>
      simp only [perform, Tracer.setField]
      cases hw : t.write l value with
      | error err => exact h
      | ok p =>
          obtain ⟨t', i⟩ := p
          cases i with
          | none => exact hwrite hw
          | some i => exact hretire i (hwrite hw)
  | write l value =>
      simp only [perform]
      cases hw : t.write l value with
      | error err => exact h
      | ok p => exact hwrite hw
  | alloc cls values =>
      simp only [perform]
      cases t.heap.alloc cls values with
      | error err => exact h
      | ok p => exact halloc p.1
  | addObserver o => exact hobserver o

theorem counts (hP : Frame.Invariant P w) (c : Call)
    (hc : c.Outside → ∀ {n t}, Frame.AtRest P n t → Frame.AtRest P n (c.perform t))
    (h : Frame.AtRest P n t) :
    (∀ f ∈ c.moments t, ∃ k, P k f) ∧
      (∀ x ∈ c.heads t, (∃ k, P k x.1) ∧ x.1.tracer.shapes.Accepts x.1.entry x.2) ∧
      (∀ x ∈ c.writes t, ∃ k, P k x.1) ∧
      Frame.AtRest P (n + (c.writes t).countP w) (c.perform t) := by
  cases c with
  | run p s =>
      obtain ⟨hms, hhs, hws, hend⟩ := p.runCounts_iterate hP (p.passes s) (h p.entry) (s := s)
      refine ⟨hms, hhs, hws, ?_⟩
      change Ends _ _ (p.run (t, s)) at hend
      simp only [perform]
      cases hr : p.run (t, s) with
      | ok r ts =>
          rw [hr] at hend
          exact hend
      | error e ts =>
          rw [hr] at hend
          exact hend
  | _ =>
      exact ⟨List.forall_mem_nil _, List.forall_mem_nil _, List.forall_mem_nil _, hc trivial h⟩

end Call

/-- What runs keep, and the other ones among the calls keep too, holds at every moment, head and
write. Between the calls it has counted the writes so far. -/
theorem Frame.Invariant.calls {P : Nat → Frame → Prop} {w : Frame × Location → Bool}
    (hP : Frame.Invariant P w) {cs : List Call}
    (hcs : ∀ c ∈ cs, c.Outside → ∀ {n t}, AtRest P n t → AtRest P n (c.perform t))
    {n : Nat} {t : Tracer} (h : AtRest P n t) :
    (∀ f ∈ moments cs t, ∃ k, P k f) ∧
      (∀ x ∈ heads cs t, (∃ k, P k x.1) ∧ x.1.tracer.shapes.Accepts x.1.entry x.2) ∧
      (∀ x ∈ writes cs t, ∃ k, P k x.1) ∧
      ∀ past, past <+: cs →
        AtRest P (n + (writes past t).countP w) (past.foldl (fun t c => c.perform t) t) := by
  induction cs generalizing n t with
  | nil =>
      refine ⟨List.forall_mem_nil _, List.forall_mem_nil _, List.forall_mem_nil _, ?_⟩
      intro past hpast
      rw [List.prefix_nil.1 hpast]
      exact h
  | cons c cs ih =>
      obtain ⟨hc, hcs⟩ := List.forall_mem_cons.1 hcs
      obtain ⟨hms, hhs, hws, hrest⟩ := c.counts hP hc h
      obtain ⟨hms', hhs', hws', hpasts⟩ := ih hcs hrest
      refine ⟨List.forall_mem_append.2 ⟨hms, hms'⟩, List.forall_mem_append.2 ⟨hhs, hhs'⟩,
        List.forall_mem_append.2 ⟨hws, hws'⟩, fun past hpast => ?_⟩
      cases past with
      | nil => exact h
      | cons c' past =>
          obtain ⟨rfl, hpast'⟩ := List.cons_prefix_cons.1 hpast
          have hend := hpasts past hpast'
          rw [Nat.add_assoc, ← List.countP_append] at hend
          exact hend

end HotLoop
