import HotLoop.Proofs.Agreement

/-!
# Operations in every mode

Whatever the mode, an operation of a frame answers and changes the heap as plain interpretation
does, and leaves the tracer orderly: `Obeys`. A heap counts through what its reads answer.
-/

namespace HotLoop

open Code Journal Lifecycle Trace

abbrev Reads := Location → Except Error Int

/-- A write, as the reads before and behind it show it: it fails where a read fails. -/
def Reads.write (h : Reads) (l : Location) (value : Int) : Except Error Unit × Reads :=
  match h l with
  | .ok _ => (.ok (), fun m => if m = l then .ok value else h m)
  | .error e => (.error e, h)

def Heap.reads (h : Heap) : Reads := fun l => h.get l

variable {q : Prop} {e : EntryPoint} {t t' : Tracer} {m : Mode}

namespace Heap

variable {h h' : Heap} {v v' : Versions} {l : Location} {value : Int} {i : Option Invalidation}

theorem reads_of_set (hs : h.set v l value = .ok (h', v', i)) :
    h.reads.write l value = (.ok (), h'.reads) := by
  unfold Reads.write
  cases hx : h.reads l with
  | error e =>
      have he : h.set v l value = .error e := set_eq_error_iff.2 hx
      rw [he] at hs
      cases hs
  | ok x => exact congrArg (Prod.mk _) (funext fun m => (get_set hs m).symm)

theorem reads_of_set_error {e : Error} (hs : h.set v l value = .error e) :
    h.reads.write l value = (.error e, h.reads) := by
  have hx : h.reads l = .error e := set_eq_error_iff.1 hs
  unfold Reads.write
  rw [hx]

end Heap

/-! ## Writes -/

namespace Tracer

theorem write_eq_error {l : Location} {value : Int} {err : Error}
    (hw : t.write l value = .error err) : t.heap.set t.cache.versions l value = .error err := by
  unfold write at hw
  cases hs : t.heap.set t.cache.versions l value with
  | error err' =>
      rw [hs] at hw
      exact congrArg _ (Except.error.inj hw)
  | ok p =>
      rw [hs] at hw
      cases hw

theorem orderly_write (h : t.Orderly q e m) {l : Location} {value : Int} {i : Option Invalidation}
    (hw : t.write l value = .ok (t', i)) :
    t'.Orderly q e m ∧ t'.shapes = t.shapes ∧
      t.heap.reads.write l value = (.ok (), t'.heap.reads) := by
  obtain ⟨versions, hs, hcache, -, hmonitor, hshapes⟩ := write_eq_ok hw
  have hsound := sound_of_write h.sound hw
  refine ⟨h.recount hsound ?_ ?_ hmonitor hshapes, hshapes, Heap.reads_of_set hs⟩
  · rw [hcache]
    exact Cache.later_versions _ _
  · rw [hcache]

theorem orderly_retireDependents (h : t.Orderly q e m) (i : Invalidation) :
    ((t.retireDependents i).1.forgetAll (t.retireDependents i).2).Orderly q e m ∧
      SameView t ((t.retireDependents i).1.forgetAll (t.retireDependents i).2) := by
  have hw := Cache.without_retireAll i.dependents h.sound
  have hf := forgetAll_reported (t.retireDependents i).1 (t.retireDependents i).2
  exact ⟨h.forgetAll hw rfl rfl, hf.heap, hf.shapes⟩

end Tracer

/-! ## Frames -/

namespace Frame

variable {α β : Type} {f f' : Frame}

def Orderly (q : Prop) (f : Frame) : Prop := f.tracer.Orderly q f.entry f.mode

def SameLoop (f f' : Frame) : Prop := f'.entry = f.entry ∧ f'.tracer.shapes = f.tracer.shapes

structure Halts (q : Prop) (f : Frame) (err : Fault) (f' : Frame) : Prop where
  loud : ¬ q
  hook : ∃ hook, err = .observerFailed hook
  mode : f'.mode = .interpreting
  orderly : f'.Orderly q
  loop : SameLoop f f'

/-- The step ends in order, with the answer `a` and with a heap of these reads, if no observer
fails. -/
def Obeys (q : Prop) (f : Frame) (a : α) (reads : Reads) (r : EStateM.Result Fault Frame α) : Prop :=
  Ends (fun b f' => b = a ∧ f'.tracer.heap.reads = reads ∧ f'.Orderly q ∧ SameLoop f f') (Halts q f) r

theorem obeys_ok (h : t.Orderly q f.entry m) (hv : Tracer.SameView f.tracer t) (a : α) :
    Obeys q f a f.tracer.heap.reads (.ok a ⟨t, m, f.entry⟩) :=
  ⟨rfl, congrArg Heap.reads hv.1, h, rfl, hv.2⟩

theorem SameLoop.trans {f'' : Frame} (h : SameLoop f f') (h' : SameLoop f' f'') : SameLoop f f'' :=
  ⟨h'.1.trans h.1, h'.2.trans h.2⟩

theorem Halts.of_loop {err : Fault} {f'' : Frame} (hl : SameLoop f f') (h : Halts q f' err f'') :
    Halts q f err f'' := ⟨h.loud, h.hook, h.mode, h.orderly, hl.trans h.loop⟩

theorem obeys_stay (h : f.Orderly q) (a : α) : Obeys q f a f.tracer.heap.reads (.ok a f) :=
  obeys_ok h (Tracer.SameView.refl _) a

theorem Obeys.bind {x : EStateM Fault Frame α} {y : α → EStateM Fault Frame β} {a : α} {b : β}
    {reads : Reads} (hx : Obeys q f a f.tracer.heap.reads (x f))
    (hy : ∀ f', f'.Orderly q → f'.tracer.heap.reads = f.tracer.heap.reads →
      Obeys q f' b reads (y a f')) :
    Obeys q f b reads ((x >>= y) f) := by
  refine Ends.bind (hx.imp ?_ fun _ _ hf => hf)
  rintro _ f' ⟨rfl, hreads, ho, hl⟩
  refine (hy f' ho hreads).imp ?_ fun _ _ => Halts.of_loop hl
  rintro _ f'' ⟨rfl, hreads', ho', hl'⟩
  exact ⟨rfl, hreads', ho', hl.trans hl'⟩

theorem Obeys.of_loop {r : EStateM.Result Fault Frame α} {a : α} {reads : Reads}
    (h : Obeys q f' a reads r) (hl : SameLoop f f') : Obeys q f a reads r := by
  refine Ends.imp h ?_ fun _ _ => Halts.of_loop hl
  rintro b f'' ⟨hb, hreads, ho, hl'⟩
  exact ⟨hb, hreads, ho, hl.trans hl'⟩

/-! ### Recording -/

theorem obeys_abortTrace (h : f.Orderly q) (cause : Abort) :
    Obeys q f () f.tracer.heap.reads (abortTrace cause f) := by
  refine ends_abortTrace (fun _ => obeys_stay h ()) fun r hr => ?_
  have ht := Tracer.orderly_abort (t := f.tracer.note [.traceGivenUp f.entry r.key cause])
    (h.same ⟨rfl, rfl, rfl, rfl⟩) hr cause
  exact ht.imp (fun _ _ ht => obeys_ok ht.1 ht.2 ()) fun _ _ ht =>
    ⟨ht.loud, ht.hook, rfl, ht.orderly, rfl, ht.view.2⟩

theorem obeys_record (h : f.Orderly q) (op : Op) :
    Obeys q f () f.tracer.heap.reads (record op f) := by
  have ho : (f.recorded op).Orderly q := Tracer.Orderly.modifyRecording h fun _ => rfl
  exact ends_record (fun _ => obeys_stay h ())
    (fun _ _ _ => obeys_ok ho (Tracer.SameView.refl _) ())
    fun _ _ _ => (obeys_abortTrace ho .tooLong).of_loop ⟨rfl, rfl⟩

theorem orderly_guardField (h : f.Orderly q) (l : Location) : (f.guardField l).1.Orderly q := by
  have hc : Orderly q { f with tracer := (f.tracer.capture l).1 } :=
    Tracer.Orderly.recount h (h.sound.read l) (Cache.later_versions _ _) rfl rfl rfl
  exact of_guardField hc fun _ _ _ _ => Tracer.Orderly.modifyRecording hc fun _ => rfl

theorem guardField_entry (l : Location) (f : Frame) : (f.guardField l).1.entry = f.entry ∧
    Tracer.SameView f.tracer (f.guardField l).1.tracer :=
  of_guardField (P := fun f' => f'.entry = f.entry ∧ Tracer.SameView f.tracer f'.tracer)
    ⟨rfl, rfl, rfl⟩ fun _ _ _ _ => ⟨rfl, rfl, rfl⟩

theorem obeys_recordRead (h : f.Orderly q) (l : Location) :
    Obeys q f () f.tracer.heap.reads (recordRead l f) := by
  rw [recordRead_eq]
  by_cases hq : f.tracer.settings.foldFields && (f.tracer.heap.isQuasi l).toOption.getD false
  · rw [if_pos hq]
    obtain ⟨he, hheap, hshapes⟩ := guardField_entry l f
    have hreads := congrArg Heap.reads hheap
    refine Obeys.of_loop ?_ ⟨he, hshapes⟩
    rw [← hreads]
    refine (obeys_record (orderly_guardField h l) _).bind fun f' ho hreads' => ?_
    rw [← hreads']
    split_ifs
    · exact obeys_record ho _
    · exact obeys_stay ho ()
  · rw [if_neg hq]
    exact obeys_record h _

/-! ### The operations of a body -/

theorem obeys_getField (h : f.Orderly q) (l : Location) :
    Obeys q f (f.tracer.heap.reads l) f.tracer.heap.reads (getField l f) := by
  rw [getField_eq]
  change Obeys q f (f.tracer.heap.get l) _ _
  cases hx : f.tracer.heap.get l with
  | error err => exact obeys_stay h _
  | ok x =>
      dsimp only
      split_ifs
      · refine (obeys_recordRead h l).bind fun f' ho hreads => ?_
        rw [← hreads]
        exact obeys_stay ho _
      · exact obeys_stay h _

theorem orderly_modeWithout (h : t.Orderly q f.entry f.mode) (retired : List Handle) :
    t.Orderly q f.entry (f.modeWithout retired) := by
  unfold modeWithout
  split_ifs with ha
  · obtain ⟨j, hj, -⟩ := (Option.any_eq_true _ _).1 ha
    exact h.interpreting (Mode.attempt?_of_artifact? hj)
  · exact h

theorem obeys_afterRevocation (h : f.Orderly q) (i : Invalidation) :
    Obeys q f () f.tracer.heap.reads (afterRevocation i f) := by
  obtain ⟨ho, hv⟩ := Tracer.orderly_retireDependents h i
  have hm : (f.revoked i).Orderly q := orderly_modeWithout ho _
  refine ends_afterRevocation (fun _ => obeys_ok (f := f) hm hv ()) fun _ => ?_
  rw [← congrArg Heap.reads hv.1]
  exact (obeys_abortTrace hm .forcedWrite).of_loop ⟨rfl, hv.2⟩

theorem obeys_storeField (h : f.Orderly q) (l : Location) (value : Int) :
    Obeys q f (f.tracer.heap.reads.write l value).1 (f.tracer.heap.reads.write l value).2
      (storeField l value f) := by
  refine ends_storeField (fun err hw => ?_) (fun t hw => ?_) fun t i hw => ?_
  · rw [Heap.reads_of_set_error (Tracer.write_eq_error hw)]
    exact obeys_stay h _
  · obtain ⟨ho, hshapes, hreads⟩ := Tracer.orderly_write h hw
    rw [hreads]
    exact ⟨rfl, rfl, ho, rfl, hshapes⟩
  · obtain ⟨ho, hshapes, hreads⟩ := Tracer.orderly_write h hw
    have hf : Orderly q { f with tracer := t } := ho
    rw [hreads]
    have hr : Obeys q f () t.heap.reads (afterRevocation i { f with tracer := t }) :=
      (obeys_afterRevocation hf i).of_loop ⟨rfl, hshapes⟩
    exact hr.imp (fun _ _ h => ⟨rfl, h.2⟩) fun _ _ h => h

theorem obeys_setField (h : f.Orderly q) (l : Location) (value : Int) :
    Obeys q f (f.tracer.heap.reads.write l value).1 (f.tracer.heap.reads.write l value).2
      (setField l value f) := by
  rw [setField_eq]
  refine (obeys_record h _).bind fun f' ho hreads => ?_
  rw [← hreads]
  exact obeys_storeField ho l value

theorem obeys_branch (h : f.Orderly q) (cond : Bool) :
    Obeys q f () f.tracer.heap.reads (branch cond f) := by
  rw [branch_eq]
  obtain ⟨t, m, e⟩ := f
  have hcounted : ∀ n, Orderly q ⟨t, m.modifyRecording fun r => { r with branches := n + 1 }, e⟩ :=
    fun n => Tracer.Orderly.modifyRecording h fun _ => rfl
  cases m with
  | interpreting => exact obeys_stay h ()
  | runningBridge b => exact obeys_stay h ()
  | running j expected n =>
      dsimp only
      cases expected[n]? with
      | none => exact obeys_ok (Tracer.Orderly.interpreting h rfl) (Tracer.SameView.refl t) ()
      | some direction =>
          dsimp only
          split_ifs
          · have hn : t.Orderly q e (.running j expected (n + 1)) :=
              Tracer.Orderly.mode h rfl rfl h.fits
            exact obeys_ok hn (Tracer.SameView.refl t) ()
          · obtain ⟨ho, hv⟩ := Tracer.orderly_guardFailed h n
            exact obeys_ok ho hv ()
  | tracingLoop r => exact (obeys_record (hcounted r.branches) _).of_loop ⟨rfl, rfl⟩
  | tracingBridge p i r => exact (obeys_record (hcounted r.branches) _).of_loop ⟨rfl, rfl⟩

end Frame

end HotLoop
