import HotLoop.Program.Run
import HotLoop.Proofs.Heap
import HotLoop.Proofs.Install

/-!
# Results of steps

`Ends` states what a step ends in, whether with an answer or with a fault, and composes along `do`.
A report to the monitor, the journal and the counters leave heap and code cache alone: `SameCode`.
Loop heads, reads and branches are taken apart once for whatever is kept by their parts.
-/

namespace HotLoop

open Code Journal Lifecycle Trace

variable {α β σ τ : Type}

/-- The step ended with an answer and in a state that satisfy `Q`, or with a fault that satisfies
`E`. -/
def Ends (Q : α → σ → Prop) (E : Fault → σ → Prop) : EStateM.Result Fault σ α → Prop
  | .ok a s => Q a s
  | .error f s => E f s

instance Ends.decidable {Q : α → σ → Prop} {E : Fault → σ → Prop} [∀ a s, Decidable (Q a s)]
    [∀ f s, Decidable (E f s)] (r : EStateM.Result Fault σ α) : Decidable (Ends Q E r) :=
  match r with
  | .ok a s => inferInstanceAs (Decidable (Q a s))
  | .error f s => inferInstanceAs (Decidable (E f s))

namespace Ends

variable {Q Q' : α → σ → Prop} {R : β → σ → Prop} {E E' : Fault → σ → Prop}

theorem of_forall {r : EStateM.Result Fault σ α} (hQ : ∀ a s, Q a s) (hE : ∀ f s, E f s) :
    Ends Q E r := by
  cases r with
  | ok a s => exact hQ a s
  | error f s => exact hE f s

theorem imp {r : EStateM.Result Fault σ α} (h : Ends Q E r) (hQ : ∀ a s, Q a s → Q' a s)
    (hE : ∀ f s, E f s → E' f s) : Ends Q' E' r := by
  cases r with
  | ok a s => exact hQ a s h
  | error f s => exact hE f s h

theorem and {r : EStateM.Result Fault σ α} (h : Ends Q E r) (h' : Ends Q' E' r) :
    Ends (fun a s => Q a s ∧ Q' a s) (fun f s => E f s ∧ E' f s) r := by
  cases r with
  | ok a s => exact ⟨h, h'⟩
  | error f s => exact ⟨h, h'⟩

theorem bind {m : EStateM Fault σ α} {g : α → EStateM Fault σ β} {s : σ}
    (h : Ends (fun a s' => Ends R E (g a s')) E (m s)) : Ends R E ((m >>= g) s) := by
  change Ends R E (EStateM.bind m g s)
  unfold EStateM.bind
  cases hm : m s with
  | ok a s' =>
      rw [hm] at h
      exact h
  | error f s' =>
      rw [hm] at h
      exact h

end Ends

namespace Tracer

structure SameCode (t t' : Tracer) : Prop where
  heap : t'.heap = t.heap
  cache : t'.cache = t.cache
  settings : t'.settings = t.settings

namespace SameCode

variable {t t' t'' : Tracer}

theorem refl (t : Tracer) : SameCode t t := ⟨rfl, rfl, rfl⟩

theorem trans (h : SameCode t t') (h' : SameCode t' t'') : SameCode t t'' :=
  ⟨h'.heap.trans h.heap, h'.cache.trans h.cache, h'.settings.trans h.settings⟩

end SameCode

theorem sameCode_note (es : List Entry) (t : Tracer) : SameCode t (t.note es) := ⟨rfl, rfl, rfl⟩

theorem sameCode_onMonitor (step : EStateM Fault (Shapes × Monitor) α) (t : Tracer) :
    Ends (fun _ t' => SameCode t t') (fun _ t' => SameCode t t') (onMonitor step t) := by
  unfold onMonitor
  cases step (t.shapes, t.monitor) with
  | ok a s => exact ⟨rfl, rfl, rfl⟩
  | error f s => exact ⟨rfl, rfl, rfl⟩

theorem report_eq (r : Report) (t : Tracer) :
    report r t = onMonitor (Monitor.take r) (t.note (t.monitor.narrate t.shapes r)) := rfl

theorem sameCode_report (r : Report) (t : Tracer) :
    Ends (fun _ t' => SameCode t t') (fun _ t' => SameCode t t') (report r t) := by
  have hn := sameCode_note (t.monitor.narrate t.shapes r) t
  rw [report_eq]
  exact (sameCode_onMonitor _ _).imp (fun _ _ h => hn.trans h) fun _ _ h => hn.trans h

theorem sameCode_forget (t : Tracer) (h : Handle) : SameCode t (t.forget h) := ⟨rfl, rfl, rfl⟩

theorem sameCode_foldl_forget (hs : List Handle) (t : Tracer) :
    SameCode t (hs.foldl forget t) := by
  induction hs generalizing t with
  | nil => exact SameCode.refl t
  | cons h hs ih => exact (sameCode_forget t h).trans (ih (t.forget h))

theorem sameCode_forgetAll (t : Tracer) (hs : List Handle) : SameCode t (t.forgetAll hs) :=
  have h := sameCode_foldl_forget hs
    { t with failures := t.failures.filterKeys fun k => decide (k.1 ∉ hs) }
  ⟨h.heap, h.cache, h.settings⟩

/-- A write is a write of the heap. It leaves the artifacts and the monitor alone. -/
theorem write_eq_ok {t t' : Tracer} {l : Location} {value : Int} {i : Option Invalidation}
    (hw : t.write l value = .ok (t', i)) :
    ∃ versions, t.heap.set t.cache.versions l value = .ok (t'.heap, versions, i) ∧
      t'.cache = { t.cache with versions := versions } ∧ t'.settings = t.settings ∧
      t'.monitor = t.monitor ∧ t'.shapes = t.shapes := by
  unfold write at hw
  cases hs : t.heap.set t.cache.versions l value with
  | error e =>
      rw [hs] at hw
      cases hw
  | ok p =>
      obtain ⟨h, versions, j⟩ := p
      rw [hs] at hw
      obtain ⟨rfl, rfl⟩ := Prod.mk.inj (Except.ok.inj hw)
      exact ⟨versions, rfl, rfl, rfl, rfl, rfl⟩

theorem cache_of_write {t t' : Tracer} {l : Location} {value : Int}
    (hw : t.write l value = .ok (t', none)) : t'.cache = t.cache := by
  obtain ⟨versions, hs, hcache, -⟩ := write_eq_ok hw
  rcases Heap.revoke_set hs with ⟨i, hi, -⟩ | ⟨-, rfl, -⟩
  · cases hi
  · exact hcache

theorem revoke_of_write {t t' : Tracer} {l : Location} {value : Int} {i : Invalidation}
    (hw : t.write l value = .ok (t', some i)) :
    ∃ versions, t.cache.versions.invalidate? l = some (versions, i) ∧
      t'.cache = { t.cache with versions := versions } := by
  obtain ⟨versions, hs, hcache, -⟩ := write_eq_ok hw
  rcases Heap.revoke_set hs with ⟨j, hj, -, hi⟩ | ⟨hnone, -⟩
  · obtain rfl := Option.some.inj hj
    exact ⟨versions, hi, hcache⟩
  · cases hnone

theorem sound_of_write {t t' : Tracer} {l : Location} {value : Int} {i : Option Invalidation}
    (hc : t.cache.Sound) (hw : t.write l value = .ok (t', i)) : t'.cache.Sound := by
  cases i with
  | none =>
      rw [cache_of_write hw]
      exact hc
  | some i =>
      obtain ⟨versions, hi, hcache⟩ := revoke_of_write hw
      rw [hcache]
      exact hc.invalidate hi

theorem enter_eq (t : Tracer) (h : Handle) :
    t.enter h = ({ t.note (t.cache.narrateEnter h) with cache := (t.cache.enter h).1 },
      (t.cache.enter h).2) := rfl

theorem guardFailed_eq (t : Tracer) (h : Handle) (i : Nat) :
    t.guardFailed h i = match t.cache.bridge? h i with
      | none => t.countFailure h i
      | some b =>
        match (t.cache.enter b).2 with
        | .entered => ((t.enter b).1, .runningBridge b)
        | .guardFailed _ retired => ((t.enter b).1.forgetAll retired).countFailure h i
        | .dead => (t.enter b).1.countFailure h i := by
  unfold guardFailed
  cases t.cache.bridge? h i with
  | none => rfl
  | some b =>
      have he := enter_eq t b
      cases hc : (t.cache.enter b).2 <;> simp only [he, hc]

/-! ### The loop head, step by step -/

theorem installLoop_eq (e : EntryPoint) (k : Key) (g : Guards) (ops : List Op) (t : Tracer) :
    installLoop e k g ops t =
      let t' := t.note (t.cache.narrateInstallLoop e k g ops)
      match t.shapes.check e k with
      | .error f => .error f t'
      | .ok shapes => .ok (t.cache.addLoop (e.site k) g ops).2
          { t' with shapes := shapes, cache := (t.cache.addLoop (e.site k) g ops).1 } := by
  have he : installLoop e k g ops t =
      onCache (Cache.installLoop e k g ops) (t.note (t.cache.narrateInstallLoop e k g ops)) := rfl
  have hn : ((t.note (t.cache.narrateInstallLoop e k g ops)).shapes,
      (t.note (t.cache.narrateInstallLoop e k g ops)).cache) = (t.shapes, t.cache) := rfl
  rw [he]
  unfold onCache
  rw [hn, Cache.installLoop_eq]
  cases t.shapes.check e k <;> rfl

theorem installBridge_eq (parent : Handle) (i : Nat) (g : Guards) (ops : List Op) (t : Tracer) :
    installBridge parent i g ops t =
      let t' := t.note (t.cache.narrateInstallBridge parent i g)
      match t.cache.get? parent with
      | none => .error (.notLiveLoop parent) t'
      | some p =>
        if p.IsLoop then .ok (t.cache.addBridge parent p.site i g ops).2
          { t' with cache := (t.cache.addBridge parent p.site i g ops).1 }
        else .error (.notLiveLoop parent) t' := by
  have he : installBridge parent i g ops t =
      onArtifacts (Cache.installBridge parent i g ops)
        (t.note (t.cache.narrateInstallBridge parent i g)) := rfl
  have hn : (t.note (t.cache.narrateInstallBridge parent i g)).cache = t.cache := rfl
  rw [he]
  unfold onArtifacts Cache.installBridge
  rw [hn]
  cases t.cache.get? parent with
  | none => rfl
  | some p =>
      simp only
      split_ifs <;> rfl

theorem closeLoop_eq (e : EntryPoint) (r : Recording) (t : Tracer) :
    closeLoop e r t = match installLoop e r.key r.guards (r.ops ++ [.jump]) t with
      | .error f t => .error f t
      | .ok (.ok i) t =>
        report (.loop e r.key i.handle (r.ops ++ [.jump]) .loop 0 0) (t.forgetAll i.replaced)
      | .ok (.error l) t => report (.abort .forcedWrite e r.key) (t.note [.captureStale l]) := by
  unfold closeLoop
  simp only [bind, EStateM.bind]
  cases installLoop e r.key r.guards (r.ops ++ [.jump]) t with
  | error f t => rfl
  | ok result t => cases result <;> rfl

theorem closeBridge_eq_do (e : EntryPoint) (parent : Handle) (i : Nat) (r : Recording) (t : Tracer) :
    closeBridge e parent i r t = (if t.cache.isLive parent then do
      match ← installBridge parent i r.guards (r.ops ++ [.jump]) with
      | .ok b => report (.bridge e parent b i (r.ops ++ [.jump]) 0 0)
      | .error _ => report (.abort .forcedWrite e r.key)
    else report (.abort .bridge e r.key)) t := rfl

theorem closeBridge_eq (e : EntryPoint) (parent : Handle) (i : Nat) (r : Recording) (t : Tracer) :
    closeBridge e parent i r t =
      if t.cache.isLive parent then
        match installBridge parent i r.guards (r.ops ++ [.jump]) t with
        | .error f t => .error f t
        | .ok (.ok b) t => report (.bridge e parent b i (r.ops ++ [.jump]) 0 0) t
        | .ok (.error _) t => report (.abort .forcedWrite e r.key) t
      else report (.abort .bridge e r.key) t := by
  rw [closeBridge_eq_do]
  split_ifs
  · simp only [bind, EStateM.bind]
    cases installBridge parent i r.guards (r.ops ++ [.jump]) t with
    | error f t => rfl
    | ok result t => cases result <;> rfl
  · rfl

theorem countHit_eq (e : EntryPoint) (k : Key) (t : Tracer) :
    countHit e k t =
      let hits := t.hits.findD (e.site k) 0 + 1
      if hits < t.settings.threshold then
        .ok .interpreting { t with hits := t.hits.insert (e.site k) hits }
      else
        (report (.begin e k) >>= fun _ => pure (.tracingLoop { key := k, ops := [.label] }))
          ({ t with hits := t.hits.insert (e.site k) 0 }.note [.loopTraced e k]) := by
  have he : countHit e k t = (if t.hits.findD (e.site k) 0 + 1 < t.settings.threshold then do
      set { t with hits := t.hits.insert (e.site k) (t.hits.findD (e.site k) 0 + 1) }
      return Mode.interpreting
    else do
      set ({ t with hits := t.hits.insert (e.site k) 0 }.note [.loopTraced e k])
      report (.begin e k)
      return Mode.tracingLoop { key := k, ops := [.label] }) t := rfl
  rw [he]
  simp only
  split_ifs <;> rfl

theorem enterOrCount_eq (e : EntryPoint) (k : Key) (t : Tracer) :
    enterOrCount e k t =
      if t.settings.enabled then
        match t.cache.loop? (e.site k) with
        | none => countHit e k t
        | some h =>
          match (t.cache.enter h).2 with
          | .entered => .ok
              (.running h ((((t.enter h).1.cache.get? h).map fun a =>
                directions a.operations).getD []) 0) (t.enter h).1
          | .guardFailed l retired =>
            countHit e k (((t.enter h).1.note [.loopRefused h l]).forgetAll retired)
          | .dead => countHit e k (t.enter h).1
      else .ok .interpreting t := by
  have he : enterOrCount e k t = (if t.settings.enabled then
      match t.cache.loop? (e.site k) with
      | none => countHit e k
      | some h =>
        match (t.cache.enter h).2 with
        | .entered => do
          set (t.enter h).1
          return Mode.running h ((((t.enter h).1.cache.get? h).map fun a : Artifact =>
            directions a.operations).getD []) 0
        | .guardFailed l retired => do
          set (((t.enter h).1.note [.loopRefused h l]).forgetAll retired)
          countHit e k
        | .dead => do
          set (t.enter h).1
          countHit e k
    else return Mode.interpreting) t := rfl
  rw [he]
  split_ifs
  · cases t.cache.loop? (e.site k) with
    | none => rfl
    | some h =>
        simp only
        cases (t.cache.enter h).2 <;> rfl
  · rfl

/-- At the loop head a trace whose key has come back is closed, and then the loop is entered or its
pass is counted, as it is where no trace is open. -/
theorem ends_mergePoint {Q : Mode → Tracer → Prop} {E : Fault → Tracer → Prop} {e : EntryPoint}
    {k : Key} {m : Mode} {t : Tracer}
    (hloop : ∀ r, m = .tracingLoop r → r.key = k →
      Ends Q E ((closeLoop e r >>= fun _ => enterOrCount e k) t))
    (hbridge : ∀ p i r, m = .tracingBridge p i r → r.key = k →
      Ends Q E ((closeBridge e p i r >>= fun _ => enterOrCount e k) t))
    (hopen : ∀ r, m.recording? = some r → r.key ≠ k → Q m t)
    (hidle : m.recording? = none → Ends Q E (enterOrCount e k t)) :
    Ends Q E (mergePoint e k m t) := by
  cases m with
  | tracingLoop r =>
      change Ends Q E ((if r.key = k then do
        closeLoop e r
        enterOrCount e k
      else pure (.tracingLoop r)) t)
      split_ifs with hk
      · exact hloop r rfl hk
      · exact hopen r rfl hk
  | tracingBridge p i r =>
      change Ends Q E ((if r.key = k then do
        closeBridge e p i r
        enterOrCount e k
      else pure (.tracingBridge p i r)) t)
      split_ifs with hk
      · exact hbridge p i r rfl hk
      · exact hopen r rfl hk
  | _ => exact hidle rfl

end Tracer

/-! ## The operations of a frame, step by step -/

namespace Frame

def recorded (op : Op) (f : Frame) : Frame :=
  { f with mode := f.mode.modifyRecording fun r => { r with ops := r.ops ++ [op] } }

theorem record_eq (op : Op) (f : Frame) :
    record op f = match f.mode.recording? with
      | none => .ok () f
      | some r =>
        let f' := { f with mode := f.mode.modifyRecording fun r => { r with ops := r.ops ++ [op] } }
        if f.tracer.settings.traceLimit < r.ops.length + 1 then abortTrace .tooLong f'
        else .ok () f' := by
  have he : record op f = (match f.mode.recording? with
      | none => pure ()
      | some r => do
        set { f with mode := f.mode.modifyRecording fun r => { r with ops := r.ops ++ [op] } }
        if f.tracer.settings.traceLimit < r.ops.length + 1 then abortTrace .tooLong) f := rfl
  rw [he]
  cases f.mode.recording? with
  | none => rfl
  | some r =>
      simp only
      split_ifs <;> rfl

theorem recordRead_eq (l : Location) (f : Frame) :
    recordRead l f =
      if f.tracer.settings.foldFields && (f.tracer.heap.isQuasi l).toOption.getD false then
        (record (.foldedField l) >>= fun _ =>
          if (f.guardField l).2 then record (.guardVersion l) else pure ()) (f.guardField l).1
      else record (.getField l) f := by
  have he : recordRead l f =
      (if f.tracer.settings.foldFields && (f.tracer.heap.isQuasi l).toOption.getD false then do
        set (f.guardField l).1
        record (.foldedField l)
        if (f.guardField l).2 then record (.guardVersion l)
      else record (.getField l)) f := rfl
  rw [he]
  by_cases hq : f.tracer.settings.foldFields && (f.tracer.heap.isQuasi l).toOption.getD false
  · rw [if_pos hq, if_pos hq]
    rfl
  · rw [if_neg hq, if_neg hq]

theorem getField_eq (l : Location) (f : Frame) :
    getField l f = match f.tracer.heap.get l with
      | .error e => .ok (.error e) f
      | .ok x =>
        if f.mode.recording?.isSome then (recordRead l >>= fun _ => pure (.ok x)) f
        else .ok (.ok x) f := by
  have he : getField l f = (match f.tracer.heap.get l with
      | .error e => (pure (.error e) : EStateM Fault Frame (Except Error Int))
      | .ok x => do
        if f.mode.recording?.isSome then recordRead l
        pure (.ok x)) f := rfl
  rw [he]
  cases f.tracer.heap.get l with
  | error e => rfl
  | ok x =>
      simp only
      split_ifs <;> rfl

def storeField (l : Location) (value : Int) : EStateM Fault Frame (Except Error Unit) := fun f =>
  match f.tracer.write l value with
  | .error e => .ok (.error e) f
  | .ok (t, none) => .ok (.ok ()) { f with tracer := t }
  | .ok (t, some i) => (afterRevocation i >>= fun _ => pure (.ok ())) { f with tracer := t }

theorem storeField_eq_do (l : Location) (value : Int) (f : Frame) :
    storeField l value f = (match f.tracer.write l value with
      | .error e => (pure (.error e) : EStateM Fault Frame (Except Error Unit))
      | .ok (t, i) => do
        set { f with tracer := t }
        match i with
        | none => pure (.ok ())
        | some i => do
          afterRevocation i
          pure (.ok ())) f := by
  unfold storeField
  cases f.tracer.write l value with
  | error e => rfl
  | ok p =>
      obtain ⟨t, i⟩ := p
      cases i <;> rfl

theorem setField_eq (l : Location) (value : Int) (f : Frame) :
    setField l value f = (record (.setField l) >>= fun _ => storeField l value) f := by
  have hs := funext (storeField_eq_do l value)
  rw [hs]
  rfl

def modeWithout (f : Frame) (retired : List Handle) : Mode :=
  if f.mode.artifact?.any (· ∈ retired) then .interpreting else f.mode

def revoked (i : Invalidation) (f : Frame) : Frame :=
  { f with
    tracer := (f.tracer.retireDependents i).1.forgetAll (f.tracer.retireDependents i).2
    mode := f.modeWithout (f.tracer.retireDependents i).2 }

theorem afterRevocation_eq (i : Invalidation) (f : Frame) :
    afterRevocation i f =
      let (t, retired) := f.tracer.retireDependents i
      let f' := { f with tracer := t.forgetAll retired, mode := f.modeWithout retired }
      if f'.mode.recording?.any fun r => r.guards.Covers i.stale.location then
        abortTrace .forcedWrite f'
      else .ok () f' := by
  have he : afterRevocation i f = (do
      set { f with
        tracer := (f.tracer.retireDependents i).1.forgetAll (f.tracer.retireDependents i).2
        mode := f.modeWithout (f.tracer.retireDependents i).2 }
      if (f.modeWithout (f.tracer.retireDependents i).2).recording?.any fun r : Recording =>
        decide (r.guards.Covers i.stale.location) then abortTrace .forcedWrite) f := rfl
  rw [he]
  simp only
  split_ifs <;> rfl

theorem branch_eq (cond : Bool) (f : Frame) :
    branch cond f = match f.mode with
      | .interpreting => .ok () f
      | .runningBridge _ => .ok () f
      | .running h expected n =>
        match expected[n]? with
        | none => .ok () { f with mode := .interpreting }
        | some direction =>
          if direction = cond then .ok () { f with mode := .running h expected (n + 1) }
          else .ok () { f with
            tracer := (f.tracer.guardFailed h n).1
            mode := (f.tracer.guardFailed h n).2 }
      | m =>
        let index := (m.recording?.map Recording.branches).getD 0
        record (.guardBranch index cond)
          { f with mode := m.modifyRecording fun r => { r with branches := index + 1 } } := by
  obtain ⟨t, m, e⟩ := f
  cases m with
  | running h expected n =>
      have he : branch cond ⟨t, .running h expected n, e⟩ = (match expected[n]? with
          | none => set (⟨t, .interpreting, e⟩ : Frame)
          | some direction =>
            if direction = cond then set (⟨t, .running h expected (n + 1), e⟩ : Frame)
            else set (⟨(t.guardFailed h n).1, (t.guardFailed h n).2, e⟩ : Frame) :
              EStateM Fault Frame Unit) ⟨t, .running h expected n, e⟩ := rfl
      rw [he]
      dsimp only
      cases expected[n]? with
      | none => rfl
      | some direction =>
          dsimp only
          split_ifs <;> rfl
  | _ => rfl

/-! ### What the operations keep -/

theorem quasi_of_toOption {h : Heap} {l : Location}
    (hq : (h.isQuasi l).toOption.getD false = true) : h.isQuasi l = .ok true := by
  cases hi : h.isQuasi l with
  | error e => simp [hi, Except.toOption] at hq
  | ok b =>
      simp only [hi, Except.toOption, Option.getD_some] at hq
      rw [hq]

section

variable {P : Frame → Prop} {E : Fault → Frame → Prop} {f : Frame} {l : Location}

/-- Giving up a trace is reported, and then nothing is traced, whatever the report ends in. -/
theorem ends_abortTrace {Q : Unit → Frame → Prop} {cause : Abort}
    (h : f.mode.recording? = none → Q () f)
    (hreport : ∀ r, f.mode.recording? = some r →
      Ends (fun _ t => Q () { f with tracer := t, mode := .interpreting })
        (fun err t => E err { f with tracer := t, mode := .interpreting })
        (Tracer.report (.abort cause f.entry r.key)
          (f.tracer.note [.traceGivenUp f.entry r.key cause]))) :
    Ends Q E (abortTrace cause f) := by
  unfold abortTrace
  cases hr : f.mode.recording? with
  | none => exact h hr
  | some r =>
      have hends := hreport r hr
      dsimp only
      cases ht : Tracer.report (.abort cause f.entry r.key)
          (f.tracer.note [.traceGivenUp f.entry r.key cause]) with
      | ok _ t =>
          rw [ht] at hends
          exact hends
      | error err t =>
          rw [ht] at hends
          exact hends

/-- An operation is recorded where a trace is open, and a trace that is too long by it is given
up. -/
theorem ends_record {Q : Unit → Frame → Prop} {op : Op} (h : f.mode.recording? = none → Q () f)
    (hrecord : ∀ r, f.mode.recording? = some r → r.ops.length < f.tracer.settings.traceLimit →
      Q () (f.recorded op))
    (habort : ∀ r, f.mode.recording? = some r → f.tracer.settings.traceLimit ≤ r.ops.length →
      Ends Q E (abortTrace .tooLong (f.recorded op))) :
    Ends Q E (record op f) := by
  rw [record_eq]
  cases hr : f.mode.recording? with
  | none => exact h hr
  | some r =>
      dsimp only
      split_ifs with hlong
      · exact habort r hr (Nat.le_of_lt_succ hlong)
      · exact hrecord r hr (Nat.le_of_not_lt hlong)

theorem of_guardField (hcapture : P { f with tracer := (f.tracer.capture l).1 })
    (hguard : ∀ r gs, f.mode.recording? = some r → r.guards.push? (f.tracer.capture l).2 = some gs →
      P { f with
        tracer := (f.tracer.capture l).1
        mode := f.mode.modifyRecording fun r => { r with guards := gs } }) :
    P (f.guardField l).1 := by
  unfold guardField
  dsimp only
  cases hg : f.mode.recording?.bind fun r => r.guards.push? (f.tracer.capture l).2 with
  | none => exact hcapture
  | some gs =>
      obtain ⟨r, hr, hp⟩ := Option.bind_eq_some_iff.1 hg
      exact hguard r gs hr hp

/-- What rested on a revoked version goes, and so does a trace that had captured it. -/
theorem ends_afterRevocation {Q : Unit → Frame → Prop} {i : Invalidation}
    (hkeep : ((f.revoked i).mode.recording?.any fun r =>
      decide (r.guards.Covers i.stale.location)) = false → Q () (f.revoked i))
    (habort : ((f.revoked i).mode.recording?.any fun r =>
      decide (r.guards.Covers i.stale.location)) = true →
        Ends Q E (abortTrace .forcedWrite (f.revoked i))) :
    Ends Q E (afterRevocation i f) := by
  rw [afterRevocation_eq]
  dsimp only
  split_ifs with hc
  · exact habort hc
  · exact hkeep (Bool.eq_false_iff.2 hc)

theorem ends_storeField {Q : Except Error Unit → Frame → Prop} {value : Int}
    (herror : ∀ err, f.tracer.write l value = .error err → Q (.error err) f)
    (hstore : ∀ t, f.tracer.write l value = .ok (t, none) → Q (.ok ()) { f with tracer := t })
    (hrevoke : ∀ t i, f.tracer.write l value = .ok (t, some i) →
      Ends (fun _ => Q (.ok ())) E (afterRevocation i { f with tracer := t })) :
    Ends Q E (storeField l value f) := by
  unfold storeField
  cases hw : f.tracer.write l value with
  | error err => exact herror err hw
  | ok p =>
      obtain ⟨t, i⟩ := p
      cases i with
      | none => exact hstore t hw
      | some i => exact Ends.bind ((hrevoke t i hw).imp (fun _ _ h => h) fun _ _ h => h)

/-- A read leaves the frame alone, or it is recorded, folded or not. -/
theorem ends_getField (h : P f)
    (hplain : f.mode.recording?.isSome = true →
      Ends (fun _ => P) E (record (.getField l) f))
    (hfolded : ∀ x, f.mode.recording?.isSome = true → f.tracer.heap.get l = .ok x →
      f.tracer.heap.isQuasi l = .ok true → f.tracer.settings.foldFields = true →
      Ends (fun _ => P) E ((record (.foldedField l) >>= fun _ =>
        if (f.guardField l).2 then record (.guardVersion l) else pure ()) (f.guardField l).1)) :
    Ends (fun _ => P) E (getField l f) := by
  rw [getField_eq]
  cases hx : f.tracer.heap.get l with
  | error e => exact h
  | ok x =>
      dsimp only
      split_ifs with hopen
      · refine Ends.bind ?_
        change Ends (fun _ => P) E (recordRead l f)
        rw [recordRead_eq]
        by_cases hq : f.tracer.settings.foldFields && (f.tracer.heap.isQuasi l).toOption.getD false
        · rw [if_pos hq]
          obtain ⟨hfold, hquasi⟩ := Bool.and_eq_true_iff.1 hq
          exact hfolded x hopen hx (quasi_of_toOption hquasi) hfold
        · rw [if_neg hq]
          exact hplain hopen
      · exact h

/-- Reads keep what recording and capturing keep. -/
theorem ends_getField_of_record (h : P f)
    (hrecord : ∀ op f, P f → Ends (fun _ => P) E (record op f))
    (hguard : ∀ x, f.tracer.heap.get l = .ok x → f.tracer.heap.isQuasi l = .ok true →
      f.tracer.settings.foldFields = true → P (f.guardField l).1) :
    Ends (fun _ => P) E (getField l f) := by
  refine ends_getField h (fun _ => hrecord _ f h) fun x _ hx hquasi hfold => ?_
  refine Ends.bind ((hrecord _ _ (hguard x hx hquasi hfold)).imp (fun _ f' hf' => ?_)
    fun _ _ hf' => hf')
  split_ifs
  · exact hrecord _ f' hf'
  · exact hf'

/-- A branch is counted and recorded, or it is checked in the loop that runs. -/
theorem ends_branch {cond : Bool} (h : P f)
    (hcount : ∀ r, f.mode.recording? = some r → Ends (fun _ => P) E
      (record (.guardBranch r.branches cond)
        { f with mode := f.mode.modifyRecording fun r' => { r' with branches := r.branches + 1 } }))
    (hstop : ∀ j expected n, f.mode = .running j expected n → P { f with mode := .interpreting })
    (hnext : ∀ j expected n, f.mode = .running j expected n →
      P { f with mode := .running j expected (n + 1) })
    (hfail : ∀ j expected n, f.mode = .running j expected n →
      P { f with tracer := (f.tracer.guardFailed j n).1, mode := (f.tracer.guardFailed j n).2 }) :
    Ends (fun _ => P) E (branch cond f) := by
  rw [branch_eq]
  obtain ⟨t, m, e⟩ := f
  cases m with
  | interpreting => exact h
  | runningBridge b => exact h
  | running j expected n =>
      dsimp only
      cases expected[n]? with
      | none => exact hstop j expected n rfl
      | some direction =>
          dsimp only
          split_ifs
          · exact hnext j expected n rfl
          · exact hfail j expected n rfl
  | tracingLoop r => exact hcount r rfl
  | tracingBridge p i r => exact hcount r rfl

end

/-! ### Giving up the trace -/

structure Cleared (f f' : Frame) : Prop where
  code : f.tracer.SameCode f'.tracer
  mode : f'.mode.recording? = none

theorem cleared_abortTrace (cause : Abort) (f : Frame) :
    Ends (fun _ f' => f.Cleared f') (fun _ f' => f.Cleared f') (abortTrace cause f) := by
  refine ends_abortTrace (fun hr => ⟨Tracer.SameCode.refl _, hr⟩) fun r _ => ?_
  have hn := Tracer.sameCode_note [.traceGivenUp f.entry r.key cause] f.tracer
  exact (Tracer.sameCode_report _ _).imp (fun _ _ h => ⟨hn.trans h, rfl⟩)
    fun _ _ h => ⟨hn.trans h, rfl⟩

end Frame

end HotLoop
