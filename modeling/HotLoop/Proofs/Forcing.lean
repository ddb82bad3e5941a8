import HotLoop.Proofs.Observers
import HotLoop.Proofs.Readiness
import HotLoop.Proofs.Running

/-!
# Traces given up for a write

A trace is given up for a write just if the write succeeds on a location that the trace has captured
and still has room for it. That abort is counted and reported at the write. So what a trace has
captured is current whenever it comes to a loop head, and no installation is refused there.
-/

namespace HotLoop

open Code Journal Lifecycle Trace Versions

namespace Tracer

variable {g : Settings} {n : Nat} {e : EntryPoint} {t t' : Tracer} {m : Mode} {k : Key}
  {v : Version} {l : Location} {value : Int} {i : Option Invalidation}

/-! ## Writes -/

theorem Told.observers {cause : Abort} {ledger : Ledger} (ht : Told (.abort cause e k) t t')
    (hk : t.shapes.Accepts e k) (hl : t.monitor.ledger.abort cause e k = .ok ledger) :
    t'.monitor.observers =
      (Observer.deliver ⟨.abort cause e k, t'.monitor.ledger⟩ t.monitor.observers).1 := by
  have htaken : (Act.report (.abort cause e k)).Taken (t.shapes, t.monitor) = true :=
    taken_report_iff.2 ⟨⟨t.shapes, hk⟩, ledger, hl⟩
  have hd := delivery?_eq_some_iff (d := ⟨.abort cause e k, t'.monitor.ledger⟩)
    |>.2 ⟨htaken, rfl, congrArg Monitor.ledger ht.monitor.symm⟩
  have ho := observers_report (.abort cause e k) (t.shapes, t.monitor)
  rw [hd, ← ht.monitor] at ho
  exact ho

theorem isOk_get_of_write (hw : t.write l value = .ok (t', i)) : (t.heap.get l).isOk = true := by
  cases hx : t.heap.get l with
  | ok x => rfl
  | error err =>
      obtain ⟨versions, hs, -⟩ := write_eq_ok hw
      rw [Heap.set_eq_error_iff.2 hx] at hs
      cases hs

namespace Assumes

theorem write (h : t.Assumes v) (hs : t.cache.versions.Sound)
    (hw : t.write l value = .ok (t', i)) (hl : v.location ≠ l) : t'.Assumes v := by
  obtain ⟨versions, hset, hcache, hsettings, -⟩ := write_eq_ok hw
  refine ⟨?_, ?_, ?_⟩
  · rw [hcache]
    exact (Heap.isCurrent_set_iff hs hset (issued_of_isCurrent h.current) h.quasi).2 ⟨h.current, hl⟩
  · rw [Heap.isQuasi_set hset]
    exact h.quasi
  · rw [hsettings]
    exact h.folds

theorem revoked (h : t.Assumes v) (hw : t.write v.location value = .ok (t', i)) :
    i.isSome = true := by
  obtain ⟨versions, hset, -⟩ := write_eq_ok hw
  rcases Heap.revoke_set hset with ⟨inv, rfl, -⟩ | ⟨-, -, hn⟩
  · rfl
  · have hc : t.cache.versions.current? v.location = some v := h.current
    rw [hn h.quasi] at hc
    cases hc

theorem capture (h : t.Assumes v) (l : Location) : (t.capture l).1.Assumes v :=
  ⟨((issued_of_isCurrent h.current).isCurrent_read_iff l).2 h.current, h.quasi, h.folds⟩

theorem retireDependents (h : t.Assumes v) (hs : t.cache.Sound) (i : Invalidation) :
    ((t.retireDependents i).1.forgetAll (t.retireDependents i).2).Assumes v := by
  have hw := Cache.without_retireAll i.dependents hs
  have ht : (t.retireDependents i).1.Assumes v :=
    ⟨(hw.versions.isCurrent_iff v).2 h.current, h.quasi, h.folds⟩
  exact ht.sameCode (sameCode_forgetAll _ _)

end Assumes

theorem location_of_write {i : Invalidation} (hw : t.write l value = .ok (t', some i)) :
    i.stale.location = l := by
  obtain ⟨versions, hi, -⟩ := revoke_of_write hw
  exact location_of_current? (invalidate?_spec hi).1

theorem observers_forgetAll (t : Tracer) (hs : List Handle) :
    (t.forgetAll hs).monitor.observers = t.monitor.observers := by
  have hfold : ∀ t₀ : Tracer, (hs.foldl forget t₀).monitor.observers = t₀.monitor.observers := by
    induction hs with
    | nil => exact fun t₀ => rfl
    | cons h hs ih =>
        intro t₀
        refine (ih (t₀.forget h)).trans ?_
        rw [ledger_forget]
  exact hfold _

theorem fit_write (h : t.Fit g n e m) (hw : t.write l value = .ok (t', i)) : t'.Fit g n e m := by
  obtain ⟨versions, -, hcache, hsettings, hmonitor, hshapes⟩ := write_eq_ok hw
  have hsound := sound_of_write h.sound hw
  have hl : t.monitor.ledger.Keeps t'.monitor.ledger := by
    rw [hmonitor]
    exact Ledger.Keeps.refl _
  have hready : t'.Ready g n := by
    refine h.toReady.move hsound (fun s j hj => ?_) ?_ hl hsettings
    · rw [hcache] at hj
      exact hj
    · rw [hcache]
  refine h.later hready (fun _ hk => ?_) ?_ hl
  · rw [hshapes]
    exact hk
  · rw [hcache]
    exact Cache.later_versions _ _

theorem fit_retireDependents (h : t.Fit g n e m) (i : Invalidation) :
    ((t.retireDependents i).1.forgetAll (t.retireDependents i).2).Fit g n e m :=
  h.forgetAll (Cache.without_retireAll i.dependents h.sound) rfl rfl rfl

end Tracer

/-! ## Frames -/

namespace Frame

variable {α : Type} {g : Settings} {n : Nat} {f f' : Frame} {l : Location} {b : Bool}

def Poised (g : Settings) (n : Nat) (f : Frame) : Prop := f.tracer.Poised g n f.entry f.mode

/-- A write to `l` succeeds, and it is not what the open trace has captured. -/
def breaks (f : Frame) (l : Location) : Bool :=
  (f.mode.recording?.any fun r => decide (r.guards.Covers l)) && (f.tracer.heap.get l).isOk

/-- A write to `l` breaks what the open trace has captured, and the trace has room to record it. -/
def forces (f : Frame) (l : Location) : Bool :=
  f.breaks l && f.mode.recording?.any fun r => decide (r.ops.length < f.tracer.settings.traceLimit)

/-- No trace is open any more, and the observers were told that it was given up for this cause, when
that was entered in the ledger. -/
structure GaveUp (cause : Abort) (r : Recording) (f f' : Frame) : Prop where
  mode : f'.mode = .interpreting
  told : f'.tracer.monitor.observers =
    (Observer.deliver ⟨.abort cause f.entry r.key, f'.tracer.monitor.ledger⟩
      f.tracer.monitor.observers).1

/-! ### Giving up and recording -/

theorem gaveUp_abortTrace (h : f.tracer.Fit g n f.entry f.mode) {r : Recording}
    (hr : f.mode.recording? = some r) (cause : Abort) :
    Ends
      (fun _ f' => f'.Poised g (n + (Act.report (.abort cause f.entry r.key)).forced) ∧
        f.GaveUp cause r f')
      (fun _ f' => f'.Poised g (n + (Act.report (.abort cause f.entry r.key)).forced) ∧
        f.GaveUp cause r f')
      (abortTrace cause f) := by
  have hnote := h.note [.traceGivenUp f.entry r.key cause]
  obtain ⟨hk, ledger, hl⟩ := hnote.abort_accepted hr cause
  have hends := Tracer.ready_abort hnote hr cause
  refine ends_abortTrace (fun hnone => by rw [hr] at hnone; cases hnone) fun r' hr' => ?_
  obtain rfl := Option.some.inj (hr.symm.trans hr')
  exact hends.imp (fun _ _ h => ⟨h.1.poised f.entry, rfl, h.2.observers hk hl⟩)
    fun _ _ h => ⟨h.1.poised f.entry, rfl, h.2.observers hk hl⟩

theorem guards_of_modifyRecording {m : Mode} {k : Recording → Recording}
    (hk : ∀ r, (k r).guards = r.guards) {v : Version} (hv : (m.modifyRecording k).Guards v) :
    m.Guards v := by
  obtain ⟨r, hr, hv⟩ := hv
  rw [Mode.recording?_modifyRecording, Option.map_eq_some_iff] at hr
  obtain ⟨r', hr', rfl⟩ := hr
  exact ⟨r', hr', hk r' ▸ hv⟩

theorem Poised.modifyRecording (h : f.Poised g n) {k : Recording → Recording}
    (hkey : ∀ r, (k r).key = r.key) (hk : ∀ r, (k r).guards = r.guards) :
    Poised g n { f with mode := f.mode.modifyRecording k } :=
  Tracer.Poised.modifyRecording h hkey fun v hv => h.assumes v (guards_of_modifyRecording hk hv)

theorem recording?_recorded {r : Recording} (hr : f.mode.recording? = some r) (op : Op) :
    (f.recorded op).mode.recording? = some { r with ops := r.ops ++ [op] } := by
  rw [recorded, Mode.recording?_modifyRecording, hr]
  rfl

/-- An operation is recorded, or the trace is given up since it is too long. -/
theorem recorded_or_gaveUp (h : f.Poised g n) {r : Recording}
    (hr : f.mode.recording? = some r) (op : Op) :
    Ends
      (fun _ f' => f'.Poised g n ∧
        if r.ops.length < f.tracer.settings.traceLimit then f' = f.recorded op
        else f'.mode = .interpreting)
      (fun _ f' => f'.Poised g n ∧ ¬ r.ops.length < f.tracer.settings.traceLimit)
      (record op f) := by
  have hrec : (f.recorded op).Poised g n := h.modifyRecording (fun _ => rfl) fun _ => rfl
  refine ends_record (fun hnone => by rw [hr] at hnone; cases hnone) (fun r₁ hr₁ hroom => ?_)
    fun r₁ hr₁ hfull => ?_ <;> obtain rfl := Option.some.inj (hr.symm.trans hr₁)
  · rw [if_pos hroom]
    exact ⟨hrec, rfl⟩
  · refine (gaveUp_abortTrace hrec.toFit (recording?_recorded hr op) .tooLong).imp
      (fun _ _ hf => ⟨hf.1, ?_⟩) fun _ _ hf => ⟨hf.1, Nat.not_lt.2 hfull⟩
    rw [if_neg (Nat.not_lt.2 hfull)]
    exact hf.2.mode

theorem poised_record (h : f.Poised g n) (op : Op) :
    Ends (fun _ => Poised g n) (fun _ => Poised g n) (record op f) := by
  cases hr : f.mode.recording? with
  | none =>
      rw [record_eq, hr]
      exact h
  | some r => exact (recorded_or_gaveUp h hr op).imp (fun _ _ hf => hf.1) fun _ _ hf => hf.1

/-! ### Reading and branching -/

/-- What is captured is current, and it is captured only if fields are folded. -/
theorem poised_guardField (h : f.Poised g n) (hq : f.tracer.heap.isQuasi l = .ok true)
    (hfold : f.tracer.settings.foldFields = true) : (f.guardField l).1.Poised g n := by
  have hready : (f.tracer.capture l).1.Ready g n :=
    h.toReady.move (h.sound.read l) (fun _ _ hj => hj) le_rfl (Ledger.Keeps.refl _) rfl
  have hc : Poised g n { f with tracer := (f.tracer.capture l).1 } :=
    { h.toFit.later hready (fun _ hk => hk) (Cache.later_versions _ _) (Ledger.Keeps.refl _) with
      assumes := fun v hv => (h.assumes v hv).capture l }
  refine of_guardField hc fun r gs hr hp => Tracer.Poised.modifyRecording hc (fun _ => rfl) ?_
  rintro v ⟨r', hr', hv⟩
  rw [Mode.recording?_modifyRecording, hr] at hr'
  obtain rfl := Option.some.inj hr'
  change v ∈ gs.captured at hv
  rw [captured_push? hp] at hv
  rcases List.mem_append.1 hv with hv | hv
  · exact hc.assumes v ⟨r, hr, hv⟩
  · have hl : (f.tracer.capture l).2.location = l := location_read f.tracer.cache.versions l
    rw [List.mem_singleton.1 hv]
    refine ⟨isCurrent_read _ l, ?_, hfold⟩
    rw [hl]
    exact hq

theorem poised_getField (h : f.Poised g n) (l : Location) :
    Ends (fun _ => Poised g n) (fun _ => Poised g n) (getField l f) :=
  ends_getField_of_record h (fun op _ h => poised_record h op) fun _ _ => poised_guardField h

theorem poised_branch (h : f.Poised g n) (cond : Bool) :
    Ends (fun _ => Poised g n) (fun _ => Poised g n) (branch cond f) := by
  obtain ⟨t, m, e⟩ := f
  refine ends_branch h (fun r _ => ?_) (fun _ _ _ _ => h.toReady.poised e) ?_ ?_
  · apply poised_record
    exact h.modifyRecording (fun _ => rfl) fun _ => rfl
  · rintro j expected i rfl
    exact h.toReady.turn rfl h.fits (Mode.not_guards_of_recording? rfl)
  · rintro j expected i rfl
    exact Tracer.poised_guardFailed h.toFit i

/-! ### Writing -/

structure Wrote (g : Settings) (n : Nat) (b : Bool) (f f' : Frame) : Prop where
  poised : f'.Poised g (n + b.toNat)
  gaveUp : b = true → ∃ r, f.mode.recording? = some r ∧ f.GaveUp .forcedWrite r f'

theorem Poised.wrote (h : f'.Poised g n) (hb : b = false) : f.Wrote g n b f' := by
  subst hb
  exact ⟨h, fun hb => by cases hb⟩

theorem Wrote.of_recorded {op : Op} (h : (f.recorded op).Wrote g n b f') : f.Wrote g n b f' := by
  refine ⟨h.poised, fun hb => ?_⟩
  obtain ⟨r, hr, hg⟩ := h.gaveUp hb
  rw [recorded, Mode.recording?_modifyRecording, Option.map_eq_some_iff] at hr
  obtain ⟨r, hr, rfl⟩ := hr
  exact ⟨r, hr, hg.mode, hg.told⟩

theorem breaks_of_write {t : Tracer} {value : Int} {i : Option Invalidation}
    (hw : f.tracer.write l value = .ok (t, i)) :
    f.breaks l = f.mode.recording?.any fun r => decide (r.guards.Covers l) := by
  rw [breaks, Tracer.isOk_get_of_write hw, Bool.and_true]

theorem guards_of_breaks (hb : f.breaks l = true) : ∃ v, f.mode.Guards v ∧ v.location = l := by
  obtain ⟨r, hr, hcover⟩ := (Option.any_eq_true _ _).1 (Bool.and_eq_true_iff.1 hb).1
  obtain ⟨v, hv, hl⟩ := List.mem_map.1 (of_decide_eq_true hcover)
  exact ⟨v, ⟨r, hr, hv⟩, hl⟩

/-- Without a broken guard, what is captured is on other locations. -/
theorem ne_of_not_breaks {m : Mode} {v : Version}
    (hb : (m.recording?.any fun r => decide (r.guards.Covers l)) = false) (hv : m.Guards v) :
    v.location ≠ l := by
  obtain ⟨r, hr, hv⟩ := hv
  rintro rfl
  rw [hr, Option.any_some, decide_eq_false_iff_not] at hb
  exact hb (List.mem_map_of_mem hv)

theorem recording?_modeWithout (f : Frame) (retired : List Handle) :
    (f.modeWithout retired).recording? = f.mode.recording? := by
  unfold modeWithout
  split_ifs with ha
  · obtain ⟨j, hj, -⟩ := (Option.any_eq_true _ _).1 ha
    cases hr : f.mode.recording? with
    | none => rfl
    | some r =>
        rw [Mode.artifact?_of_recording? hr] at hj
        cases hj
  · rfl

theorem fit_modeWithout {t : Tracer} (h : t.Fit g n f.entry f.mode) (retired : List Handle) :
    t.Fit g n f.entry (f.modeWithout retired) := by
  unfold modeWithout
  split_ifs
  · exact (h.toReady.poised f.entry).toFit
  · exact h

/-- What the write revoked goes, and so does a trace that had captured it. -/
theorem wrote_afterRevocation {t : Tracer} {value : Int} {i : Invalidation} (h : f.Poised g n)
    (hw : f.tracer.write l value = .ok (t, some i)) :
    Ends (fun _ => f.Wrote g n (f.breaks l)) (fun _ => f.Wrote g n (f.breaks l))
      (afterRevocation i { f with tracer := t }) := by
  obtain ⟨versions, -, -, -, hmonitor, -⟩ := Tracer.write_eq_ok hw
  have hwrite := Tracer.fit_write h.toFit hw
  have hfit : (revoked i { f with tracer := t }).tracer.Fit g n f.entry
      (revoked i { f with tracer := t }).mode :=
    fit_modeWithout (Tracer.fit_retireDependents hwrite i) _
  have hobservers : (revoked i { f with tracer := t }).tracer.monitor.observers =
      f.tracer.monitor.observers := by
    rw [revoked, Tracer.observers_forgetAll, ← hmonitor]
    rfl
  have hmode : (revoked i { f with tracer := t }).mode.recording? = f.mode.recording? :=
    recording?_modeWithout _ _
  have hbreaks : ((revoked i { f with tracer := t }).mode.recording?.any fun r =>
      decide (r.guards.Covers i.stale.location)) = f.breaks l := by
    rw [hmode, Tracer.location_of_write hw, ← breaks_of_write hw]
  refine ends_afterRevocation (fun hkeep => ?_) fun hcovers => ?_
  · have hnot := hbreaks.symm.trans hkeep
    refine Poised.wrote ?_ hnot
    exact { hfit with
      assumes := fun v hv =>
        have hv := (within_modeWithout _ _).guards v hv
        ((h.assumes v hv).write h.sound.versions hw
          (ne_of_not_breaks (breaks_of_write hw ▸ hnot) hv)).retireDependents hwrite.sound i }
  · obtain ⟨r, hr, -⟩ := (Option.any_eq_true _ _).1 hcovers
    rw [hbreaks.symm.trans hcovers]
    have hgave : ∀ f', Poised g (n + 1) f' ∧
        GaveUp .forcedWrite r (revoked i { f with tracer := t }) f' → f.Wrote g n true f' := by
      rintro f' ⟨hp, hg⟩
      exact ⟨hp, fun _ => ⟨r, hmode.symm.trans hr, hg.mode, hobservers ▸ hg.told⟩⟩
    exact (gaveUp_abortTrace hfit hr .forcedWrite).imp (fun _ f' => hgave f') fun _ f' => hgave f'

theorem wrote_storeField (h : f.Poised g n) (l : Location) (value : Int) :
    Ends (fun _ => f.Wrote g n (f.breaks l)) (fun _ => f.Wrote g n (f.breaks l))
      (storeField l value f) := by
  refine ends_storeField (fun err hw => ?_) (fun t hw => ?_)
    fun t i hw => wrote_afterRevocation h hw
  · have hx := Heap.set_eq_error_iff.1 (Tracer.write_eq_error hw)
    exact h.wrote (by rw [breaks, hx]; exact Bool.and_false _)
  · -- a captured location is tracked, and writing it would have revoked its version
    have hnot : f.breaks l = false := by
      rw [Bool.eq_false_iff]
      intro hbreaks
      obtain ⟨v, hv, rfl⟩ := guards_of_breaks hbreaks
      cases (h.assumes v hv).revoked hw
    have hfit := Tracer.fit_write h.toFit hw
    refine Poised.wrote ?_ hnot
    exact { hfit with
      assumes := fun v hv => (h.assumes v hv).write h.sound.versions hw
        (ne_of_not_breaks (breaks_of_write hw ▸ hnot) hv) }

/-- A write gives the open trace up just if it forces that. -/
theorem wrote_setField (h : f.Poised g n) (l : Location) (value : Int) :
    Ends (fun _ => f.Wrote g n (f.forces l)) (fun _ => f.Wrote g n (f.forces l))
      (setField l value f) := by
  rw [setField_eq]
  apply Ends.bind
  cases hr : f.mode.recording? with
  | none =>
      have hb : f.breaks l = false := by rw [breaks, hr]; rfl
      have hstore := wrote_storeField h l value
      rw [record_eq, hr]
      rw [hb] at hstore
      rw [forces, hb]
      exact hstore
  | some r =>
      have hroom : f.forces l =
          (f.breaks l && decide (r.ops.length < f.tracer.settings.traceLimit)) := by
        rw [forces, hr, Option.any_some]
      refine (recorded_or_gaveUp h hr _).imp ?_ ?_
      · rintro - f₁ ⟨h₁, hf₁⟩
        have hstore := wrote_storeField h₁ l value
        split_ifs at hf₁ with hlt
        · -- the recorded write does not change what the trace has captured
          subst hf₁
          have hb : (f.recorded (.setField l)).breaks l = f.breaks l := by
            unfold breaks recorded
            rw [Mode.recording?_modifyRecording, hr]
            rfl
          rw [hb] at hstore
          rw [hroom, decide_eq_true hlt, Bool.and_true]
          exact hstore.imp (fun _ _ h => h.of_recorded) fun _ _ h => h.of_recorded
        · have hb : f₁.breaks l = false := by rw [breaks, hf₁]; rfl
          have hnot : f.forces l = false := by rw [hroom, decide_eq_false hlt, Bool.and_false]
          rw [hb] at hstore
          exact hstore.imp (fun _ _ h => h.poised.wrote hnot) fun _ _ h => h.poised.wrote hnot
      · rintro - f₁ ⟨h₁, hlt⟩
        exact h₁.wrote (by rw [hroom, decide_eq_false hlt, Bool.and_false])

end Frame

/-! ## Runs and clients -/

section

variable {g : Settings} {n : Nat} {t : Tracer}

def forces (x : Frame × Location) : Bool := x.1.forces x.2

theorem invariant_poised (g : Settings) :
    Frame.Invariant (fun n f => f.Poised g n) forces where
  stop := fun h e => h.toReady.poised e
  checkKey := fun k h => Tracer.poised_checkKey h _ k
  mergePoint := fun k h hk =>
    (Tracer.poised_mergePoint h hk).imp (fun _ _ ht => ht) fun _ _ ht => ht.poised _
  leaveLoop := fun h =>
    (Tracer.ready_leaveLoop h.toFit).imp (fun _ _ ht => ht.poised _) fun _ _ ht => ht.poised _
  getField := fun l h => Frame.poised_getField h l
  setField := fun {n f} l value h => by
    have hcount : [(f, l)].countP forces = (f.forces l).toNat := by
      rw [List.countP_singleton, forces]
      cases f.forces l <;> rfl
    rw [hcount]
    exact (Frame.wrote_setField h l value).imp (fun _ _ hw => hw.poised) fun _ _ hw => hw.poised
  branch := fun cond h => Frame.poised_branch h cond

theorem Call.ready_perform {c : Call} (hc : c.Outside) (h : t.Ready g n) :
    (c.perform t).Ready g n := by
  have hfit : ∀ {t' : Tracer}, t'.Ready g n → t'.Fit g n ⟨0, "", [], []⟩ .interpreting :=
    fun h => (h.poised _).toFit
  refine c.keeps_outside hc h (fun hw => ?_) (fun i h' => ?_) (fun heap => ?_) fun o => ?_
  · exact (Tracer.fit_write (hfit h) hw).toReady
  · exact (Tracer.fit_retireDependents (hfit h') i).toReady
  · exact ⟨h.sound, h.settled, h.unannounced, h.forced, h.settings⟩
  · exact ⟨h.sound, h.settled, h.unannounced, h.forced, h.settings⟩

end

namespace Frame

variable {α : Type} {f : Frame}

def forced (f : Frame) : Nat := f.tracer.monitor.ledger.forced

def Spares (f : Frame) (r : EStateM.Result Fault Frame α) : Prop :=
  Ends (fun _ f' => f'.forced = f.forced) (fun _ f' => f'.forced = f.forced) r

/-- A write to `l` gives up the open trace just if it forces that: this is counted, the observers
are told, and there is no trace any more. -/
structure Judges (l : Location) (f f' : Frame) : Prop where
  forced : f'.forced = f.forced + if f.forces l then 1 else 0
  gaveUp : f.forces l = true → ∃ r, f.mode.recording? = some r ∧ f.GaveUp .forcedWrite r f'

theorem Poised.forced_eq {g : Settings} {n : Nat} (h : f.Poised g n) : f.forced = n :=
  h.toReady.forced

theorem judges_of_wrote {g : Settings} {n : Nat} {f' : Frame} {l : Location} (h : f.Poised g n)
    (hw : f.Wrote g n (f.forces l) f') : f.Judges l f' := by
  refine ⟨?_, hw.gaveUp⟩
  rw [hw.poised.forced_eq, h.forced_eq]
  cases f.forces l <;> rfl

theorem spares_of_poised {g : Settings} {n : Nat} {r : EStateM.Result Fault Frame α}
    (h : f.Poised g n) (hr : Ends (fun _ => Poised g n) (fun _ => Poised g n) r) : f.Spares r := by
  have hsame : ∀ f', Poised g n f' → f'.forced = f.forced :=
    fun f' hf' => hf'.forced_eq.trans h.forced_eq.symm
  exact hr.imp (fun _ f' => hsame f') fun _ f' => hsame f'

end Frame

/-- Where nothing is stale, nothing is refused. -/
theorem Tracer.installs_of_current {e : EntryPoint} {k : Key} {t : Tracer} {g : Guards}
    (hg : g.firstStale? t.cache.versions = none) (ops : List Op) :
    (∀ l t', installLoop e k g ops t ≠ .ok (.error l) t') ∧
      ∀ p i l t', installBridge p i g ops t ≠ .ok (.error l) t' := by
  constructor
  · intro l t'
    rw [installLoop_eq]
    dsimp only
    cases t.shapes.check e k with
    | error f => simp
    | ok shapes => simp [Cache.addLoop_of_current hg]
  · intro p i l t'
    rw [installBridge_eq]
    dsimp only
    cases t.cache.get? p with
    | none => simp
    | some a =>
        dsimp only
        split_ifs
        · simp [Cache.addBridge_of_current hg]
        · simp

/-- At every moment, head and write frames are poised, and between the calls the tracer is ready. -/
theorem poised_throughout (settings : Settings) (cs : List Call) :
    let new : Tracer := { settings := settings }
    (∀ f ∈ moments cs new, ∃ n, f.Poised settings n) ∧
      (∀ x ∈ heads cs new, (∃ n, x.1.Poised settings n) ∧
        x.1.tracer.shapes.Accepts x.1.entry x.2) ∧
      (∀ x ∈ writes cs new, ∃ n, x.1.Poised settings n) ∧
      ∀ past, past <+: cs →
        (past.foldl (fun t c => c.perform t) new).Ready settings
          ((writes past new).countP forces) := by
  intro new
  have hcalls : ∀ c ∈ cs, c.Outside → ∀ {n t},
      Frame.AtRest (fun n f => f.Poised settings n) n t →
        Frame.AtRest (fun n f => f.Poised settings n) n (c.perform t) :=
    fun c _ hc n t h e => (c.ready_perform hc (h ⟨0, "", [], []⟩).toReady).poised e
  have hnew : Frame.AtRest (fun n f => f.Poised settings n) 0 new :=
    fun e => (Tracer.Ready.new settings).poised e
  obtain ⟨hms, hhs, hws, hpasts⟩ := (invariant_poised settings).calls hcalls hnew
  refine ⟨hms, hhs, hws, fun past hpast => ?_⟩
  have hrest := hpasts past hpast ⟨0, "", [], []⟩
  rw [Nat.zero_add] at hrest
  exact hrest.toReady

/-- In all runs of all programs, and whatever their client does in between, a trace is given up for
a write just where a write succeeds on a location that the trace has captured, if there is room to
record the write. This is reported at the write, and never elsewhere. So whatever an open trace has
captured is current at each loop head, and installations there are never refused. Where fields are
not folded, traces capture nothing, and none is given up for a write. -/
theorem forced_at_captured_writes (settings : Settings) (cs : List Call) :
    let new : Tracer := { settings := settings }
    (∀ f ∈ moments cs new,
      (∀ l value, Ends (fun _ => f.Judges l) (fun _ => f.Judges l) (Frame.setField l value f)) ∧
        (∀ l, f.Spares (Frame.getField l f)) ∧ ∀ cond, f.Spares (Frame.branch cond f)) ∧
    (∀ past, past <+: cs → (past.foldl (fun t c => c.perform t) new).monitor.ledger.forced =
      (writes past new).countP forces) ∧
    (∀ x ∈ heads cs new,
      Ends (fun _ t => t.monitor.ledger.forced = x.1.forced)
        (fun _ t => t.monitor.ledger.forced = x.1.forced)
        (Tracer.mergePoint x.1.entry x.2 x.1.mode x.1.tracer) ∧
      ∀ r, x.1.mode.recording? = some r →
        (∀ v ∈ r.guards.captured, x.1.tracer.cache.versions.IsCurrent v) ∧
          (∀ l t, Tracer.installLoop x.1.entry r.key r.guards (r.ops ++ [.jump]) x.1.tracer ≠
            .ok (.error l) t) ∧
          ∀ p i l t, Tracer.installBridge p i r.guards (r.ops ++ [.jump]) x.1.tracer ≠
            .ok (.error l) t) ∧
    (settings.foldFields = false → (∀ f ∈ moments cs new, ∀ v, ¬ f.mode.Guards v) ∧
      ∀ past, past <+: cs →
        (past.foldl (fun t c => c.perform t) new).monitor.ledger.forced = 0) := by
  intro new
  obtain ⟨hms, hhs, -, hpasts⟩ := poised_throughout settings cs
  refine ⟨fun f hf => ?_, fun past hpast => (hpasts past hpast).forced, fun x hx => ?_,
    fun hoff => ?_⟩
  · obtain ⟨n, h⟩ := hms f hf
    refine ⟨fun l value => ?_, fun l => ?_, fun cond => ?_⟩
    · exact (Frame.wrote_setField h l value).imp (fun _ _ hw => Frame.judges_of_wrote h hw)
        fun _ _ hw => Frame.judges_of_wrote h hw
    · exact Frame.spares_of_poised h (Frame.poised_getField h l)
    · exact Frame.spares_of_poised h (Frame.poised_branch h cond)
  · obtain ⟨⟨n, h⟩, hk⟩ := hhs x hx
    refine ⟨?_, fun r hr => ?_⟩
    · exact (Tracer.poised_mergePoint h hk).imp (fun _ _ ht => ht.forced.trans h.forced_eq.symm)
        fun _ _ ht => ht.forced.trans h.forced_eq.symm
    · have hg := h.firstStale?_eq_none hr
      exact ⟨(Cache.firstStale?_eq_none_iff _ _).1 hg, Tracer.installs_of_current hg _⟩
  · have hnone : ∀ {n} {f : Frame}, f.Poised settings n → ∀ v, ¬ f.mode.Guards v := by
      intro n f h v hv
      have hfolds := (h.assumes v hv).folds
      rw [h.settings, hoff] at hfolds
      cases hfolds
    refine ⟨fun f hf => ?_, fun past hpast => ?_⟩
    · obtain ⟨n, h⟩ := hms f hf
      exact hnone h
    · rw [(hpasts past hpast).forced, List.countP_eq_zero]
      rintro ⟨f, l⟩ hx hforces
      obtain ⟨n, h⟩ := (poised_throughout settings past).2.2.1 _ hx
      obtain ⟨v, hv, -⟩ := Frame.guards_of_breaks (Bool.and_eq_true_iff.1 hforces).1
      exact hnone h v hv

def rewritten : List Call :=
  weightedSum.take 1 ++
    [.run (Program.scaledSum (Program.scaledSumEntry 0) ⟨0⟩ 3 0 7) {}]

theorem forced_at_captured_writes_rewritten :
    (rewritten.foldl (fun t c => c.perform t)
        ({ settings := { threshold := 1 } } : Tracer)).monitor.ledger.forced = 1 ∧
      (rewritten.foldl (fun t c => c.perform t)
        ({ settings := { threshold := 1, foldFields := false } } : Tracer)).monitor.ledger.forced =
          0 := by
  constructor
  · rw [(forced_at_captured_writes { threshold := 1 } rewritten).2.1 rewritten (List.prefix_refl _)]
    decide +kernel
  · have hoff := (forced_at_captured_writes { threshold := 1, foldFields := false } rewritten).2.2.2
    exact (hoff rfl).2 rewritten (List.prefix_refl _)

end HotLoop
