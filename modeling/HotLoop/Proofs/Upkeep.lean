import HotLoop.Proofs.Tidiness

/-!
# The tracer keeps its cache tidy

The loop head, the operations of a frame and writes from outside keep `Cache.Tidy`. The guards of the
open trace stay current since a write to one of their locations gives the trace up at once, and so
no installation is ever refused.
-/

namespace HotLoop

open Code Journal Lifecycle Trace Versions

namespace Tracer

variable {t t' : Tracer} {m : Mode}

def Tidy (t : Tracer) (m : Mode) : Prop := t.cache.Tidy m

theorem Tidy.sameCode (h : t.Tidy m) (ht : t.SameCode t') : t'.Tidy m := by
  unfold Tidy
  rw [ht.cache]
  exact h

/-- Entry checks never fail, installations are never refused, and a bridge is traced only where none
hangs. -/
theorem persists_tidy : Persists Tidy where
  sound := fun h => h.sound
  sameCode := fun h ht => h.sameCode ht
  stop := fun h => Cache.Tidy.interpreting h
  enter := fun j h => Cache.Tidy.interpreting (Cache.Tidy.enter h j)
  traceLoop := fun _ h =>
    Cache.Tidy.turn h (Mode.not_guards_of_empty rfl rfl) fun p i r hm => by cases hm
  run := fun _ h _ _ => Cache.Tidy.of_recording? (Cache.Tidy.enter h _) rfl
  addLoop := fun s h => Cache.Tidy.addLoop h (fun v hv => h.recorded v ⟨_, rfl, hv⟩) s _
  addBridge := fun h ha hl =>
    Cache.Tidy.addBridge h ha hl (h.vacant _ _ _ rfl) (fun v hv => h.recorded v ⟨_, rfl, hv⟩) _
  traceBridge := fun _ h hv =>
    Cache.Tidy.turn h (Mode.not_guards_of_empty rfl rfl) fun p l r hm => by
      cases hm
      exact hv
  runBridge := fun h _ _ => Cache.Tidy.of_recording? (Cache.Tidy.enter h _) rfl

end Tracer

/-! ## The operations of a frame -/

namespace Frame

variable {α : Type} {f f' : Frame} {m : Mode}

abbrev Tidy (f : Frame) : Prop := f.Meets Tracer.Tidy

def Tidies (r : EStateM.Result Fault Frame α) : Prop :=
  Ends (fun _ f => f.Tidy) (fun _ f => f.Tidy) r

theorem Cleared.tidy (hc : f.Cleared f') (h : f.tracer.Tidy m) : f'.Tidy :=
  Cache.Tidy.of_recording? (h.sameCode hc.code) hc.mode

/-- Giving up the trace is tidy, whatever it had captured. -/
theorem tidies_abortTrace (cause : Abort) (h : f.tracer.Tidy m) : Tidies (abortTrace cause f) :=
  (cleared_abortTrace cause f).imp (fun _ _ hc => hc.tidy h) fun _ _ hc => hc.tidy h

theorem tidies_record (op : Op) (h : f.Tidy) : Tidies (record op f) :=
  ends_record (fun _ => h) (fun _ _ _ => Cache.Tidy.record h fun _ => rfl) fun _ _ _ =>
    tidies_abortTrace (f := f.recorded op) .tooLong h

theorem tidy_guardField (l : Location) (h : f.Tidy) : (f.guardField l).1.Tidy := by
  have hread : Frame.Tidy { f with tracer := (f.tracer.capture l).1 } := Cache.Tidy.read h l
  refine of_guardField hread fun r g hr hp => ?_
  refine Cache.Tidy.modifyRecording hread fun r' hr' v hv => ?_
  have hv : v ∈ g.captured := hv
  rw [captured_push? hp] at hv
  rcases List.mem_append.1 hv with hv | hv
  · exact hread.recorded v ⟨r, hr, hv⟩
  · rw [List.mem_singleton.1 hv]
    exact isCurrent_read f.tracer.cache.versions l

theorem tidies_getField (l : Location) (h : f.Tidy) : Tidies (getField l f) :=
  ends_getField_of_record h (fun op _ => tidies_record op) fun _ _ _ _ => tidy_guardField l h

/-! ### Writes -/

/-- What a write that revoked a version leaves of the cache, also if an observer then fails. -/
theorem cache_afterRevocation (i : Invalidation) (f : Frame) :
    Ends (fun _ f' => f'.tracer.cache = (f.tracer.cache.retireAll i.dependents).1)
      (fun _ f' => f'.tracer.cache = (f.tracer.cache.retireAll i.dependents).1)
      (afterRevocation i f) := by
  have hsame : (f.revoked i).tracer.cache = (f.tracer.cache.retireAll i.dependents).1 :=
    (Tracer.sameCode_forgetAll _ _).cache
  exact ends_afterRevocation (fun _ => hsame) fun _ => (within_abortTrace _ _).imp
    (fun _ _ hf' => hf'.1.cache.trans hsame) fun _ _ hf' => hf'.1.cache.trans hsame

/-- The trace goes on only if it has no guard on the location that was written. -/
theorem tidies_afterRevocation {c : Cache} {l : Location} {t : Versions} {i : Invalidation}
    (h : c.Tidy f.mode) (hi : c.versions.invalidate? l = some (t, i))
    (hf : f.tracer.cache = { c with versions := t }) : Tidies (afterRevocation i f) := by
  have hl : i.stale.location = l := location_of_current? (invalidate?_spec hi).1
  have hcache : (f.revoked i).tracer.cache =
      (Cache.retireAll { c with versions := t } i.dependents).1 := by
    rw [← hf]
    exact (Tracer.sameCode_forgetAll _ _).cache
  refine ends_afterRevocation (fun hkeep => ?_) fun _ => ?_
  · change Cache.Tidy _ _
    rw [hcache]
    refine h.revoke hi (within_modeWithout f _).guards ?_ fun p k r hm => ?_
    · rintro v ⟨r, hr, hv⟩ hvl
      rw [hr, Option.any_some, decide_eq_false_iff_not, hl, ← hvl] at hkeep
      exact hkeep (List.mem_map_of_mem hv)
    · unfold revoked modeWithout at hm
      split_ifs at hm
      exact ⟨r, hm⟩
  · apply tidies_abortTrace .forcedWrite (m := .interpreting)
    unfold Tracer.Tidy
    rw [hcache]
    refine h.revoke hi ?_ ?_ fun p k r hm => by cases hm
    · exact fun v hv => absurd hv (Mode.not_guards_of_recording? rfl v)
    · exact fun v hv => absurd hv (Mode.not_guards_of_recording? rfl v)

theorem tidies_storeField (l : Location) (value : Int) (h : f.Tidy) :
    Tidies (storeField l value f) := by
  refine ends_storeField (fun _ _ => h) (fun t hw => ?_) fun t i hw => ?_
  · change t.cache.Tidy f.mode
    rw [Tracer.cache_of_write hw]
    exact h
  · obtain ⟨versions, hi, hcache⟩ := Tracer.revoke_of_write hw
    exact tidies_afterRevocation (f := { f with tracer := t }) h hi hcache

theorem tidies_setField (l : Location) (value : Int) (h : f.Tidy) :
    Tidies (setField l value f) := by
  rw [setField_eq]
  refine Ends.bind ((tidies_record _ h).imp (fun _ f' hf' => ?_) fun _ _ hf' => hf')
  exact tidies_storeField l value hf'

theorem tidies_branch (cond : Bool) (h : f.Tidy) : Tidies (branch cond f) := by
  obtain ⟨t, m, e⟩ := f
  refine ends_branch h (fun r _ => ?_) (fun _ _ _ _ => Cache.Tidy.interpreting h) ?_ ?_
  · apply tidies_record
    exact Cache.Tidy.record h fun _ => rfl
  · exact fun j expected n _ => Cache.Tidy.of_recording? h rfl
  · rintro j expected n rfl
    exact Tracer.persists_tidy.guardFailed h n

end Frame

/-! ## Runs and clients -/

theorem Tracer.invariant_tidy : Tracer.Invariant Tracer.Tidy where
  stop := fun h => persists_tidy.stop h
  checkKey := fun e k h => persists_tidy.checkKey e k h
  mergePoint := fun e k h => persists_tidy.mergePoint e k h
  leaveLoop := fun e h => persists_tidy.leaveLoop e h
  getField := fun l h => Frame.tidies_getField l h
  setField := fun l value h => Frame.tidies_setField l value h
  branch := fun cond h => Frame.tidies_branch cond h

end HotLoop
