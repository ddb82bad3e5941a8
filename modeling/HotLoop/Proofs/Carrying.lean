import HotLoop.Proofs.Moments

/-!
# Carrying an invariant through runs

What holds of a tracer and its mode, and is kept by the loop head and by each operation of a frame,
holds at every moment of every run. Bodies may fail or fault anywhere: behind a fault the mode of the
run is of no account any more, and the tracer is as the fault left it.
-/

namespace HotLoop

open Lifecycle

def Frame.Meets (P : Tracer → Mode → Prop) (f : Frame) : Prop := P f.tracer f.mode

structure Tracer.Invariant (P : Tracer → Mode → Prop) : Prop where
  stop : ∀ {t m}, P t m → P t .interpreting
  checkKey : ∀ {t m} e k, P t m →
    Ends (fun _ t' => P t' m) (fun _ t' => P t' m) (onMonitor (Shapes.checkKey e k) t)
  mergePoint : ∀ {t m} e k, P t m →
    Ends (fun m' t' => P t' m') (fun _ t' => P t' .interpreting) (mergePoint e k m t)
  leaveLoop : ∀ {t m} e, P t m →
    Ends (fun _ t' => P t' .interpreting) (fun _ t' => P t' .interpreting) (leaveLoop e m t)
  getField : ∀ {f : Frame} l, f.Meets P →
    Ends (fun _ f' => f'.Meets P) (fun _ f' => f'.Meets P) (Frame.getField l f)
  setField : ∀ {f : Frame} l value, f.Meets P →
    Ends (fun _ f' => f'.Meets P) (fun _ f' => f'.Meets P) (Frame.setField l value f)
  branch : ∀ {f : Frame} cond, f.Meets P →
    Ends (fun _ f' => f'.Meets P) (fun _ f' => f'.Meets P) (Frame.branch cond f)

namespace Program

variable {σ α : Type} {P : Tracer → Mode → Prop}

/-! ## Bodies -/

def BodyMeets (P : Tracer → Mode → Prop) (ms : List Frame)
    (r : EStateM.Result Fault (Frame × σ) (Except Error Unit)) : Prop :=
  (∀ f ∈ ms, f.Meets P) ∧ Ends (fun _ fs => fs.1.Meets P) (fun _ fs => fs.1.Meets P) r

theorem bodyMeets_op {op : EStateM Fault Frame α} {next : α → Body σ} {f : Frame} {s : σ}
    (h : f.Meets P) (hop : Ends (fun _ g => g.Meets P) (fun _ g => g.Meets P) (op f))
    (ih : ∀ a g, g.Meets P → BodyMeets P ((next a).moments g) ((next a).exec (g, s))) :
    BodyMeets P (f :: Body.momentsAfter (fun a => (next a).moments) (op f))
      ((Body.onFrame op >>= fun a => (next a).exec) (f, s)) := by
  simp only [bind, EStateM.bind, Body.onFrame]
  cases ho : op f with
  | ok a g =>
      rw [ho] at hop
      obtain ⟨hms, hend⟩ := ih a g hop
      exact ⟨List.forall_mem_cons.2 ⟨h, hms⟩, hend⟩
  | error e g =>
      rw [ho] at hop
      exact ⟨List.forall_mem_cons.2 ⟨h, List.forall_mem_singleton.2 hop⟩, hop⟩

theorem bodyMeets_exec (hP : Tracer.Invariant P) (b : Body σ) {f : Frame} (h : f.Meets P) (s : σ) :
    BodyMeets P (b.moments f) (b.exec (f, s)) := by
  induction b generalizing f s with
  | done => exact ⟨List.forall_mem_singleton.2 h, h⟩
  | fail e => exact ⟨List.forall_mem_singleton.2 h, h⟩
  | fault e => exact ⟨List.forall_mem_singleton.2 h, h⟩
  | keep s' next ih => exact ih h s'
  | getField l next ih => exact bodyMeets_op h (hP.getField l h) fun a g hg => ih a hg s
  | setField l value next ih =>
      exact bodyMeets_op h (hP.setField l value h) fun a g hg => ih a hg s
  | branch cond next ih => exact bodyMeets_op h (hP.branch cond h) fun _ g hg => ih hg s
  | peek l next ih => exact ih (f.tracer.heap.get l) h s
  | ask next ih => exact ih f.activity h s

/-! ## Runs -/

def RunMeets (P : Tracer → Mode → Prop) (ms : List Frame)
    (r : EStateM.Result Fault (Tracer × σ) (Except Error Unit)) : Prop :=
  (∀ f ∈ ms, f.Meets P) ∧
    Ends (fun _ ts => P ts.1 .interpreting) (fun _ ts => P ts.1 .interpreting) r

variable {t : Tracer} {m : Mode}

theorem ends_leave_invariant (hP : Tracer.Invariant P) (p : Program σ) (r : Except Error Unit)
    (s : σ) (h : P t m) :
    Ends (fun _ ts => P ts.1 .interpreting) (fun _ ts => P ts.1 .interpreting)
      (p.leave m r (t, s)) := by
  have hl := hP.leaveLoop p.entry h
  simp only [leave, bind, EStateM.bind, onTracer]
  cases he : Tracer.leaveLoop p.entry m t with
  | ok _ t' =>
      rw [he] at hl
      exact hl
  | error e t' =>
      rw [he] at hl
      exact hl

theorem ends_head_invariant (hP : Tracer.Invariant P) (p : Program σ) (s : σ) (h : P t m) :
    Ends (fun m' t' => P t' m') (fun _ t' => P t' .interpreting) (p.head m s t) := by
  have hk := hP.checkKey p.entry (p.greens s) h
  refine Ends.bind (hk.imp (fun _ t' ht => ?_) fun _ t' ht => hP.stop ht)
  exact hP.mergePoint p.entry (p.greens s) ht

theorem runMeets_iterate (hP : Tracer.Invariant P) (p : Program σ) (n : Nat) {s : σ} (h : P t m) :
    RunMeets P (p.moments n m t s) (p.iterate n m (t, s)) := by
  induction n generalizing m t s with
  | zero => exact ⟨List.forall_mem_nil _, ends_leave_invariant hP p (.ok ()) s h⟩
  | succ n ih =>
      rw [iterate_succ, moments]
      split_ifs
      · have hh := ends_head_invariant hP p s h
        cases hm : p.head m s t with
        | error e t' =>
            rw [hm] at hh
            exact ⟨List.forall_mem_nil _, hh⟩
        | ok m' t' =>
            rw [hm] at hh
            have hf : Frame.Meets P ⟨t', m', p.entry⟩ := hh
            obtain ⟨hms, hend⟩ := bodyMeets_exec hP (p.body s) hf s
            simp only [enterBody]
            cases hx : (p.body s).exec (⟨t', m', p.entry⟩, s) with
            | error e fs =>
                rw [hx] at hend
                exact ⟨List.forall_mem_append.2 ⟨hms, List.forall_mem_nil _⟩, hP.stop hend⟩
            | ok r fs =>
                rw [hx] at hend
                obtain ⟨f', s'⟩ := fs
                cases r with
                | ok _ =>
                    obtain ⟨hms', hend'⟩ := ih (s := s') hend
                    exact ⟨List.forall_mem_append.2 ⟨hms, hms'⟩, hend'⟩
                | error e =>
                    refine ⟨List.forall_mem_append.2 ⟨hms, List.forall_mem_nil _⟩, ?_⟩
                    exact ends_leave_invariant hP p (.error e) s' hend
      · exact ⟨List.forall_mem_nil _, ends_leave_invariant hP p (.ok ()) s h⟩

end Program

/-! ## Clients -/

namespace Call

variable {P : Tracer → Mode → Prop} {t : Tracer}

theorem moments_meet (hP : Tracer.Invariant P) (c : Call) (h : P t .interpreting) :
    ∀ f ∈ c.moments t, f.Meets P := by
  cases c with
  | run p s => exact (Program.runMeets_iterate hP p (p.passes s) h).1
  | _ => exact List.forall_mem_nil _

theorem perform_run_meets (hP : Tracer.Invariant P) {σ : Type} (p : Program σ) (s : σ)
    (h : P t .interpreting) : P ((Call.run p s).perform t) .interpreting := by
  have hend := (Program.runMeets_iterate hP p (p.passes s) h (s := s)).2
  change Ends _ _ (p.run (t, s)) at hend
  simp only [perform]
  cases hr : p.run (t, s) with
  | ok r ts =>
      rw [hr] at hend
      exact hend
  | error e ts =>
      rw [hr] at hend
      exact hend

end Call

/-- What runs keep, and the other ones among the calls keep too, holds at every moment and between
the calls. -/
theorem Tracer.Invariant.calls {P : Tracer → Mode → Prop} (hP : Tracer.Invariant P) {cs : List Call}
    (hcs : ∀ c ∈ cs, ∀ t, P t .interpreting → P (c.perform t) .interpreting) {t : Tracer}
    (h : P t .interpreting) :
    (∀ f ∈ moments cs t, f.Meets P) ∧
      ∀ past, past <+: cs → P (past.foldl (fun t c => c.perform t) t) .interpreting := by
  induction cs generalizing t with
  | nil =>
      refine ⟨List.forall_mem_nil _, fun past hpast => ?_⟩
      rw [List.prefix_nil.1 hpast]
      exact h
  | cons c cs ih =>
      obtain ⟨hc, hcs⟩ := List.forall_mem_cons.1 hcs
      obtain ⟨hms, hpasts⟩ := ih hcs (hc t h)
      refine ⟨List.forall_mem_append.2 ⟨c.moments_meet hP h, hms⟩, fun past hpast => ?_⟩
      cases past with
      | nil => exact h
      | cons c' past =>
          obtain ⟨rfl, hpast'⟩ := List.cons_prefix_cons.1 hpast
          exact hpasts past hpast'

end HotLoop
