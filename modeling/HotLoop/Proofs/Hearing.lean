import HotLoop.Proofs.Acts
import HotLoop.Proofs.Carrying

/-!
# What runs tell a monitor

A tracer speaks to its monitor only by reports and by retired artifacts. So what stays true of a
monitor whatever it is told, stays true of the monitor of a tracer through every run: `upholds_run`.
-/

namespace HotLoop

open Code Journal Lifecycle Trace

/-- Whatever a monitor is told, `Q` stays true of it. -/
def Lifecycle.Monitor.Kept (Q : Monitor → Prop) : Prop :=
  ∀ (a : Act) (s : Shapes × Monitor), Q s.2 → Q (a.perform s).2

abbrev Tracer.Upholds {α : Type} (Q : Monitor → Prop) (r : EStateM.Result Fault Tracer α) : Prop :=
  Ends (fun _ t => Q t.monitor) (fun _ t => Q t.monitor) r

abbrev Frame.Upholds {α : Type} (Q : Monitor → Prop) (r : EStateM.Result Fault Frame α) : Prop :=
  Ends (fun _ f => Q f.tracer.monitor) (fun _ f => Q f.tracer.monitor) r

variable {Q : Monitor → Prop} (hQ : Monitor.Kept Q)

include hQ

/-! ## Loop heads -/

namespace Tracer

variable {t : Tracer} (h : Q t.monitor)

include h

theorem upholds_take (r : Report) : Upholds Q (onMonitor (Monitor.take r) t) := by
  have hr := hQ (.report r) (t.shapes, t.monitor) h
  simp only [Act.perform] at hr
  unfold onMonitor
  cases ht : Monitor.take r (t.shapes, t.monitor) with
  | ok a s =>
      rw [ht] at hr
      exact hr
  | error f s =>
      rw [ht] at hr
      exact hr

theorem upholds_report (r : Report) : Upholds Q (report r t) :=
  upholds_take hQ (t := t.note (t.monitor.narrate t.shapes r)) h r

theorem upholds_forget (j : Handle) : Q (t.forget j).monitor :=
  hQ (.retire j) (t.shapes, t.monitor) h

theorem upholds_foldl_forget (hs : List Handle) : Q (hs.foldl forget t).monitor := by
  induction hs generalizing t with
  | nil => exact h
  | cons j hs ih => exact ih (upholds_forget hQ h j)

theorem upholds_forgetAll (hs : List Handle) : Q (t.forgetAll hs).monitor :=
  have hfilter : Q (Tracer.monitor
      { t with failures := t.failures.filterKeys fun k => decide (k.1 ∉ hs) }) := h
  upholds_foldl_forget hQ hfilter hs

theorem upholds_closeLoop (e : EntryPoint) (r : Recording) : Upholds Q (closeLoop e r t) := by
  have hinstall : Upholds Q (installLoop e r.key r.guards (r.ops ++ [.jump]) t) := by
    rw [installLoop_eq]
    dsimp only
    cases t.shapes.check e r.key with
    | error f => exact h
    | ok shapes => exact h
  rw [closeLoop_eq]
  cases hi : installLoop e r.key r.guards (r.ops ++ [.jump]) t with
  | error f t' =>
      rw [hi] at hinstall
      exact hinstall
  | ok result t' =>
      rw [hi] at hinstall
      cases result with
      | ok i => exact upholds_report hQ (upholds_forgetAll hQ hinstall i.replaced) _
      | error l => exact upholds_report hQ (t := t'.note _) hinstall _

theorem upholds_closeBridge (e : EntryPoint) (p : Handle) (i : Nat) (r : Recording) :
    Upholds Q (closeBridge e p i r t) := by
  have hinstall : Upholds Q (installBridge p i r.guards (r.ops ++ [.jump]) t) := by
    rw [installBridge_eq]
    dsimp only
    cases t.cache.get? p with
    | none => exact h
    | some a =>
        dsimp only
        split_ifs
        · exact h
        · exact h
  rw [closeBridge_eq]
  split_ifs
  · cases hi : installBridge p i r.guards (r.ops ++ [.jump]) t with
    | error f t' =>
        rw [hi] at hinstall
        exact hinstall
    | ok result t' =>
        rw [hi] at hinstall
        cases result with
        | ok b => exact upholds_report hQ hinstall _
        | error l => exact upholds_report hQ hinstall _
  · exact upholds_report hQ h _

theorem upholds_countHit (e : EntryPoint) (k : Key) : Upholds Q (countHit e k t) := by
  rw [countHit_eq]
  dsimp only
  split_ifs
  · exact h
  · have hnote : Q (Tracer.note [.loopTraced e k]
        { t with hits := t.hits.insert (e.site k) 0 }).monitor := h
    exact Ends.bind ((upholds_report hQ hnote (.begin e k)).imp (fun _ _ h' => h') fun _ _ h' => h')

theorem upholds_enterOrCount (e : EntryPoint) (k : Key) : Upholds Q (enterOrCount e k t) := by
  rw [enterOrCount_eq]
  split_ifs
  · cases t.cache.loop? (e.site k) with
    | none => exact upholds_countHit hQ h e k
    | some j =>
        dsimp only
        cases (t.cache.enter j).2 with
        | entered => exact h
        | guardFailed l retired =>
            exact upholds_countHit hQ
              (upholds_forgetAll hQ (t := (t.enter j).1.note _) h retired) e k
        | dead => exact upholds_countHit hQ (t := (t.enter j).1) h e k
  · exact h

theorem upholds_mergePoint (e : EntryPoint) (k : Key) (m : Mode) :
    Upholds Q (mergePoint e k m t) := by
  apply ends_mergePoint
  · intro r _ _
    exact Ends.bind ((upholds_closeLoop hQ h e r).imp
      (fun _ t' h' => upholds_enterOrCount hQ h' e k) fun _ _ h' => h')
  · intro p i r _ _
    exact Ends.bind ((upholds_closeBridge hQ h e p i r).imp
      (fun _ t' h' => upholds_enterOrCount hQ h' e k) fun _ _ h' => h')
  · exact fun _ _ _ => h
  · exact fun _ => upholds_enterOrCount hQ h e k

theorem upholds_leaveLoop (e : EntryPoint) (m : Mode) : Upholds Q (leaveLoop e m t) := by
  cases m with
  | tracingLoop r => exact upholds_report hQ h _
  | tracingBridge p i r => exact upholds_report hQ h _
  | _ => exact h

omit hQ in
theorem upholds_countFailure (j : Handle) (i : Nat) : Q (t.countFailure j i).1.monitor := by
  unfold countFailure
  cases t.cache.get? j with
  | none => exact h
  | some a =>
      dsimp only
      split_ifs
      · exact h
      · exact h

theorem upholds_guardFailed (j : Handle) (i : Nat) : Q (t.guardFailed j i).1.monitor := by
  rw [guardFailed_eq]
  cases t.cache.bridge? j i with
  | none => exact upholds_countFailure h j i
  | some b =>
      dsimp only
      cases (t.cache.enter b).2 with
      | entered => exact h
      | guardFailed l retired =>
          exact upholds_countFailure (upholds_forgetAll hQ (t := (t.enter b).1) h retired) j i
      | dead => exact upholds_countFailure (t := (t.enter b).1) h j i

end Tracer

/-! ## The operations of a frame -/

namespace Frame

variable {f : Frame} (h : Q f.tracer.monitor)

include h

theorem upholds_abortTrace (cause : Abort) : Upholds Q (abortTrace cause f) :=
  ends_abortTrace (fun _ => h) fun _ _ => Tracer.upholds_report hQ (t := f.tracer.note _) h _

theorem upholds_record (op : Op) : Upholds Q (record op f) :=
  ends_record (fun _ => h) (fun _ _ _ => h) fun _ _ _ =>
    upholds_abortTrace hQ (f := f.recorded op) h .tooLong

theorem upholds_getField (l : Location) : Upholds Q (getField l f) :=
  ends_getField_of_record (P := fun f => Q f.tracer.monitor) h
    (fun op _ h' => upholds_record hQ h' op)
    fun _ _ _ _ => of_guardField (P := fun f => Q f.tracer.monitor) h fun _ _ _ _ => h

theorem upholds_afterRevocation (i : Invalidation) : Upholds Q (afterRevocation i f) := by
  have hrevoked : Q (f.revoked i).tracer.monitor :=
    Tracer.upholds_forgetAll hQ (t := (f.tracer.retireDependents i).1) h _
  exact ends_afterRevocation (fun _ => hrevoked)
    fun _ => upholds_abortTrace hQ hrevoked .forcedWrite

theorem upholds_setField (l : Location) (value : Int) : Upholds Q (setField l value f) := by
  have hwrite : ∀ {f : Frame} {t : Tracer} {i : Option Invalidation}, Q f.tracer.monitor →
      f.tracer.write l value = .ok (t, i) → Q t.monitor := by
    intro f t i hf hw
    obtain ⟨-, -, -, -, hmonitor, -⟩ := Tracer.write_eq_ok hw
    rw [hmonitor]
    exact hf
  rw [setField_eq]
  refine Ends.bind ((upholds_record hQ h _).imp (fun _ f' hf => ?_) fun _ _ hf => hf)
  apply ends_storeField
  · exact fun _ _ => hf
  · exact fun t hw => hwrite hf hw
  · exact fun t i hw => upholds_afterRevocation hQ (f := { f' with tracer := t }) (hwrite hf hw) i

theorem upholds_branch (cond : Bool) : Upholds Q (branch cond f) := by
  apply ends_branch (P := fun f => Q f.tracer.monitor) h
  · intro r _
    have hcount : Q (Frame.tracer { f with
        mode := f.mode.modifyRecording fun r' => { r' with branches := r.branches + 1 } }).monitor :=
      h
    exact upholds_record hQ hcount _
  · exact fun _ _ _ _ => h
  · exact fun _ _ _ _ => h
  · exact fun j _ n _ => Tracer.upholds_guardFailed hQ h j n

end Frame

/-! ## Runs -/

theorem Tracer.invariant_of_kept : Tracer.Invariant fun t _ => Q t.monitor where
  stop := id
  checkKey := by
    intro t m e k h
    unfold onMonitor Shapes.checkKey
    dsimp only
    cases t.shapes.check e k with
    | ok shapes => exact h
    | error f => exact h
  mergePoint := fun e k h => upholds_mergePoint hQ h e k _
  leaveLoop := fun e h => upholds_leaveLoop hQ h e _
  getField := fun l h => Frame.upholds_getField hQ h l
  setField := fun l value h => Frame.upholds_setField hQ h l value
  branch := fun cond h => Frame.upholds_branch hQ h cond

/-- Behind a run, however it ends, what is kept is true of the monitor. -/
theorem Program.upholds_run {σ : Type} (p : Program σ) {t : Tracer} (h : Q t.monitor) (s : σ) :
    Ends (fun _ ts => Q ts.1.monitor) (fun _ ts => Q ts.1.monitor) (p.run (t, s)) :=
  (runMeets_iterate (Tracer.invariant_of_kept hQ) p (p.passes s) (t := t) (m := .interpreting) h).2

end HotLoop
