import HotLoop.Proofs.Forcing

/-!
# Steps that count nothing

The tracer counts how often the head of a site was passed, how often a live loop was entered, and
how often its branch guards failed. Most steps leave these counts alone. A retired loop takes its
counts along, and a loop that is installed has a new handle, for which nothing was counted yet.
-/

namespace HotLoop

open Code Journal Lifecycle Trace

/-! ## Entries of loops -/

namespace Code.Cache

/-- A live loop that was entered `n` times, or a handle that is not given out yet. -/
def Entered (c : Cache) (h : Handle) (n : Nat) : Prop :=
  (∃ a, c.get? h = some a ∧ a.IsLoop ∧ a.entries = n) ∨ c.next ≤ h.number ∧ n = 0

variable {c c' : Cache} {h b : Handle} {n : Nat} {s : Site} {g : Guards} {ops : List Op}

theorem Without.entered {gone : List Handle} (hw : c.Without c' gone) (hc : c.Sound)
    (he : c'.Entered h n) : c.Entered h n ∧ h ∉ gone := by
  rcases he with ⟨a', ha', hk, hn⟩ | ⟨hnew, rfl⟩
  · obtain ⟨a, ha, hl⟩ := hw.live h a' ha'
    exact ⟨Or.inl ⟨a, ha, hl.kind.symm.trans hk, hl.entries.symm.trans hn⟩, hw.not_mem ha'⟩
  · rw [hw.next] at hnew
    refine ⟨Or.inr ⟨hnew, rfl⟩, fun hm => ?_⟩
    obtain ⟨a, ha⟩ := hw.listed h hm
    exact absurd (hc.handle h a ha).2 (Nat.not_lt.2 hnew)

theorem entered_of_register (he : (c.register g).1.Entered h n) : c.Entered h n :=
  he.imp_right fun ⟨hnew, hn⟩ => ⟨Nat.le_of_succ_le hnew, hn⟩

/-- The loop that is installed was never entered, and the others are the same or replaced. -/
theorem entered_of_addLoop (hc : c.Sound) (he : (c.addLoop s g ops).1.Entered h n) :
    c.Entered h n ∧ ∀ i, (c.addLoop s g ops).2 = .ok i → h ∉ i.replaced := by
  cases hg : g.firstStale? c.versions with
  | some v =>
      rw [addLoop_of_stale hg] at he ⊢
      exact ⟨entered_of_register he, fun i hi => by cases hi⟩
  | none =>
      have hw := (without_vacate (hc.register g) s).1
      rw [addLoop_of_current hg] at he ⊢
      by_cases hh : h = ⟨c.next⟩
      · subst hh
        have hn : n = 0 := by
          rcases he with ⟨a, ha, -, hn⟩ | ⟨-, hn⟩
          · rw [get?_putLoop, if_pos rfl] at ha
            obtain rfl := Option.some.inj ha
            exact hn.symm
          · exact hn
        refine ⟨Or.inr ⟨le_rfl, hn⟩, ?_⟩
        rintro i hi hm
        obtain rfl := Except.ok.inj hi
        obtain ⟨a, ha⟩ := hw.listed _ hm
        exact hc.ne_next ha rfl
      · have he' : ((c.register g).1.vacate s).1.Entered h n := by
          refine he.imp_left ?_
          rintro ⟨a, ha, hk, hn⟩
          rw [get?_putLoop, if_neg hh] at ha
          exact ⟨a, ha, hk, hn⟩
        obtain ⟨hold, hm⟩ := hw.entered (hc.register g) he'
        refine ⟨entered_of_register hold, ?_⟩
        rintro i hi
        obtain rfl := Except.ok.inj hi
        exact hm

theorem entered_of_addBridge {parent : Handle} {i : Nat}
    (he : (c.addBridge parent s i g ops).1.Entered h n) : c.Entered h n := by
  cases hg : g.firstStale? c.versions with
  | some v =>
      rw [addBridge_of_stale hg] at he
      exact entered_of_register he
  | none =>
      rw [addBridge_of_current hg] at he
      apply entered_of_register
      refine he.imp_left ?_
      rintro ⟨a', ha', hk, hn⟩
      rcases of_get?_putBridge ha' with ⟨-, rfl⟩ | ⟨-, a, ha, rfl⟩
      · cases hk
      · refine ⟨a, ha, ?_, ?_⟩
        · split_ifs at hk <;> exact hk
        · split_ifs at hn <;> exact hn

/-- Entering a loop counts that, and nothing else. A bridge is no loop. -/
theorem entered_of_enter (hc : c.Sound) {a : Artifact} (ha : c.get? b = some a)
    (hin : (c.enter b).2 = .entered) (he : (c.enter b).1.Entered h n) :
    ∃ m, c.Entered h m ∧ n = m + if h = b ∧ a.IsLoop then 1 else 0 := by
  obtain ⟨-, -, -, hx⟩ := of_enter_entered hin
  rw [hx] at he
  rcases he with ⟨a', ha', hk, rfl⟩ | ⟨hnew, rfl⟩
  · rw [get?_entered] at ha'
    split_ifs at ha' with hb
    · subst hb
      rw [ha] at ha'
      obtain rfl := Option.some.inj ha'
      have hk : a.IsLoop := hk
      exact ⟨a.entries, Or.inl ⟨a, ha, hk, rfl⟩, by rw [if_pos ⟨rfl, hk⟩]; rfl⟩
    · exact ⟨a'.entries, Or.inl ⟨a', ha', hk, rfl⟩, by rw [if_neg fun hb' => hb hb'.1]; rfl⟩
  · have hne : h ≠ b := by
      rintro rfl
      exact absurd (hc.handle h a ha).2 (Nat.not_lt.2 hnew)
    exact ⟨0, Or.inr ⟨hnew, rfl⟩, by rw [if_neg fun hb' => hne hb'.1]⟩

end Code.Cache

/-! ## The counts of a tracer -/

namespace Tracer

variable {t t' t'' : Tracer} {g : Settings} {n : Nat} {e : EntryPoint} {k : Key} {m : Mode}

/-- In `t'` nothing more was counted than in `t`. -/
structure Steady (t t' : Tracer) : Prop where
  hits : t'.hits = t.hits
  entered : ∀ h n, t'.cache.Entered h n → t.cache.Entered h n
  failures : ∀ h n, t'.cache.Entered h n →
    ∀ i, t'.failures.findD (h, i) 0 = t.failures.findD (h, i) 0

namespace Steady

theorem refl (t : Tracer) : t.Steady t := ⟨rfl, fun _ _ he => he, fun _ _ _ _ => rfl⟩

theorem trans (h : t.Steady t') (h' : t'.Steady t'') : t.Steady t'' where
  hits := h'.hits.trans h.hits
  entered := fun j n he => h.entered j n (h'.entered j n he)
  failures := fun j n he i => (h'.failures j n he i).trans (h.failures j n (h'.entered j n he) i)

theorem of_cache (hh : t'.hits = t.hits) (hf : t'.failures = t.failures)
    (he : ∀ j n, t'.cache.Entered j n → t.cache.Entered j n) : t.Steady t' :=
  ⟨hh, he, fun _ _ _ _ => by rw [hf]⟩

end Steady

def Steadily {α : Type} (t : Tracer) (r : EStateM.Result Fault Tracer α) : Prop :=
  Ends (fun _ t' => t.Steady t') (fun err t' => t.Steady t' ∧ err.ofBegin = false) r

theorem Steadily.behind {α : Type} {r : EStateM.Result Fault Tracer α} (hr : t'.Steadily r)
    (h : t.Steady t') : t.Steadily r :=
  Ends.imp hr (fun _ _ h' => h.trans h') fun _ _ h' => ⟨h.trans h'.1, h'.2⟩

theorem steady_note (es : List Entry) (t : Tracer) : t.Steady (t.note es) :=
  Steady.of_cache rfl rfl fun _ _ he => he

theorem steady_onMonitor {α : Type} (step : EStateM Fault (Shapes × Monitor) α) (t : Tracer) :
    Ends (fun _ t' => t.Steady t') (fun _ t' => t.Steady t') (onMonitor step t) := by
  unfold onMonitor
  cases step (t.shapes, t.monitor) with
  | ok a s => exact Steady.of_cache rfl rfl fun _ _ he => he
  | error f s => exact Steady.of_cache rfl rfl fun _ _ he => he

theorem steadily_report {r : Report} (hr : ∀ e k, r ≠ .begin e k) (t : Tracer) :
    t.Steadily (report r t) := by
  refine Steadily.behind ?_ (steady_note (t.monitor.narrate t.shapes r) t)
  rw [report_eq]
  have hsteady := steady_onMonitor (Monitor.take r) (t.note (t.monitor.narrate t.shapes r))
  unfold onMonitor at hsteady ⊢
  cases ht : Monitor.take r ((t.note (t.monitor.narrate t.shapes r)).shapes,
      (t.note (t.monitor.narrate t.shapes r)).monitor) with
  | ok a s =>
      rw [ht] at hsteady
      exact hsteady
  | error f s =>
      rw [ht] at hsteady
      refine ⟨hsteady, ?_⟩
      rw [Bool.eq_false_iff]
      intro hf
      obtain ⟨e, k, he⟩ := Monitor.begins_of_take ht hf
      exact hr e k he

theorem steady_foldl_forget (hs : List Handle) (t : Tracer) : t.Steady (hs.foldl forget t) := by
  induction hs generalizing t with
  | nil => exact Steady.refl t
  | cons h hs ih =>
      have hone : t.Steady (t.forget h) := Steady.of_cache rfl rfl fun _ _ he => he
      exact hone.trans (ih (t.forget h))

theorem steady_forgetAll {gone : List Handle} (hg : ∀ h n, t.cache.Entered h n → h ∉ gone) :
    t.Steady (t.forgetAll gone) := by
  have hfilter : t.Steady
      { t with failures := t.failures.filterKeys fun k => decide (k.1 ∉ gone) } := by
    refine ⟨rfl, fun _ _ he => he, fun h n he i => ?_⟩
    simp only [FinMap.findD, FinMap.find?_filterKeys, decide_eq_true (hg h n he), if_true]
  exact hfilter.trans (steady_foldl_forget gone _)

theorem Steady.forgetAll {gone : List Handle} (hc : t.cache.Sound) (hh : t'.hits = t.hits)
    (hf : t'.failures = t.failures) (hw : t.cache.Without t'.cache gone) :
    t.Steady (t'.forgetAll gone) := by
  have ht : t.Steady t' := Steady.of_cache hh hf fun _ _ he => (hw.entered hc he).1
  exact ht.trans (steady_forgetAll fun _ _ he => (hw.entered hc he).2)

/-- An artifact whose guards fail is retired, and then forgotten. -/
theorem steady_enter {b : Handle} {l : Location} {gone : List Handle} (hc : t.cache.Sound)
    (hout : (t.cache.enter b).2 = .guardFailed l gone) (es : List Entry) :
    t.Steady (((t.enter b).1.note es).forgetAll gone) := by
  refine Steady.forgetAll hc rfl rfl ?_
  change t.cache.Without (t.cache.enter b).1 gone
  rcases Cache.enter_cases t.cache b with ⟨-, hx⟩ | ⟨a, -, -, hx⟩ | ⟨a, v, -, -, hx⟩
  · rw [hx] at hout
    cases hout
  · rw [hx] at hout
    cases hout
  · rw [hx] at hout ⊢
    cases hout
    exact Cache.without_retire hc b

/-! ### Closing traces -/

theorem steadily_installLoop (hc : t.cache.Sound) (e : EntryPoint) (k : Key) (gs : Guards)
    (ops : List Op) :
    Ends
      (fun result t' => t.Steady t' ∧
        ∀ i, result = .ok i → ∀ h n, t'.cache.Entered h n → h ∉ i.replaced)
      (fun err t' => t.Steady t' ∧ err.ofBegin = false) (installLoop e k gs ops t) := by
  rw [installLoop_eq]
  dsimp only
  cases hk : t.shapes.check e k with
  | error err => exact ⟨steady_note _ t, (Shapes.fault_of_check hk).2⟩
  | ok shapes =>
      refine ⟨Steady.of_cache rfl rfl fun _ _ he => (Cache.entered_of_addLoop hc he).1, ?_⟩
      exact fun i hi _ _ he => (Cache.entered_of_addLoop hc he).2 i hi

theorem steadily_closeLoop (hc : t.cache.Sound) (e : EntryPoint) (r : Recording) :
    t.Steadily (closeLoop e r t) := by
  have hinstall := steadily_installLoop hc e r.key r.guards (r.ops ++ [.jump])
  rw [closeLoop_eq]
  cases hi : installLoop e r.key r.guards (r.ops ++ [.jump]) t with
  | error err t₁ =>
      rw [hi] at hinstall
      exact hinstall
  | ok result t₁ =>
      rw [hi] at hinstall
      obtain ⟨ht, hreplaced⟩ := hinstall
      cases result with
      | ok i =>
          have hgone := steady_forgetAll (hreplaced i rfl)
          exact (steadily_report (fun _ _ he => by cases he) _).behind (ht.trans hgone)
      | error l =>
          have hnote := steady_note [.captureStale l] t₁
          exact (steadily_report (fun _ _ he => by cases he) _).behind (ht.trans hnote)

theorem steadily_installBridge (p : Handle) (i : Nat) (gs : Guards) (ops : List Op) (t : Tracer) :
    t.Steadily (installBridge p i gs ops t) := by
  rw [installBridge_eq]
  dsimp only
  cases t.cache.get? p with
  | none => exact ⟨steady_note _ t, rfl⟩
  | some a =>
      dsimp only
      split_ifs
      · exact Steady.of_cache rfl rfl fun _ _ he => Cache.entered_of_addBridge he
      · exact ⟨steady_note _ t, rfl⟩

theorem steadily_closeBridge (e : EntryPoint) (p : Handle) (i : Nat) (r : Recording) (t : Tracer) :
    t.Steadily (closeBridge e p i r t) := by
  have hinstall := steadily_installBridge p i r.guards (r.ops ++ [.jump]) t
  rw [closeBridge_eq]
  split_ifs
  · cases hi : installBridge p i r.guards (r.ops ++ [.jump]) t with
    | error err t₁ =>
        rw [hi] at hinstall
        exact hinstall
    | ok result t₁ =>
        rw [hi] at hinstall
        cases result with
        | ok b => exact (steadily_report (fun _ _ he => by cases he) t₁).behind hinstall
        | error l => exact (steadily_report (fun _ _ he => by cases he) t₁).behind hinstall
  · exact steadily_report (fun _ _ he => by cases he) t

theorem steadily_leaveLoop (e : EntryPoint) (m : Mode) (t : Tracer) :
    t.Steadily (leaveLoop e m t) := by
  cases m with
  | tracingLoop r => exact steadily_report (fun _ _ he => by cases he) t
  | tracingBridge p i r => exact steadily_report (fun _ _ he => by cases he) t
  | _ => exact Steady.refl t

/-! ### Writes -/

theorem steady_write {l : Location} {value : Int} {i : Option Invalidation}
    (hw : t.write l value = .ok (t', i)) : t.Steady t' := by
  unfold write at hw
  cases hs : t.heap.set t.cache.versions l value with
  | error err =>
      rw [hs] at hw
      cases hw
  | ok p =>
      rw [hs] at hw
      obtain ⟨rfl, -⟩ := Prod.mk.inj (Except.ok.inj hw)
      exact Steady.of_cache rfl rfl fun _ _ he => he

theorem steady_retireDependents (hc : t.cache.Sound) (i : Invalidation) :
    t.Steady ((t.retireDependents i).1.forgetAll (t.retireDependents i).2) :=
  Steady.forgetAll hc rfl rfl (Cache.without_retireAll i.dependents hc)

end Tracer

/-! ## Frames and calls -/

namespace Frame

variable {α : Type} {f f' : Frame} {g : Settings} {n : Nat}

def Steady (f : Frame) (r : EStateM.Result Fault Frame α) : Prop :=
  Ends (fun _ f' => f.tracer.Steady f'.tracer) (fun _ f' => f.tracer.Steady f'.tracer) r

theorem Steady.behind {r : EStateM.Result Fault Frame α} (hr : f'.Steady r)
    (h : f.tracer.Steady f'.tracer) : f.Steady r :=
  Ends.imp hr (fun _ _ h' => h.trans h') fun _ _ h' => h.trans h'

theorem steady_abortTrace (cause : Abort) (f : Frame) : f.Steady (abortTrace cause f) := by
  refine ends_abortTrace (fun _ => Tracer.Steady.refl _) fun r _ => ?_
  have hnote := Tracer.steady_note [.traceGivenUp f.entry r.key cause] f.tracer
  have hreport := Tracer.steadily_report (r := .abort cause f.entry r.key)
    (fun _ _ he => by cases he) (f.tracer.note [.traceGivenUp f.entry r.key cause])
  exact hreport.imp (fun _ _ h => hnote.trans h) fun _ _ h => hnote.trans h.1

theorem steady_record (op : Op) (f : Frame) : f.Steady (record op f) :=
  ends_record (fun _ => Tracer.Steady.refl _) (fun _ _ _ => Tracer.Steady.refl _)
    fun _ _ _ => steady_abortTrace .tooLong (f.recorded op)

theorem steady_guardField (l : Location) (f : Frame) :
    f.tracer.Steady (f.guardField l).1.tracer := by
  have hcapture : f.tracer.Steady (f.tracer.capture l).1 :=
    Tracer.Steady.of_cache rfl rfl fun _ _ he => he
  exact of_guardField (P := fun f' => f.tracer.Steady f'.tracer) hcapture fun _ _ _ _ => hcapture

theorem steady_getField (l : Location) (f : Frame) : f.Steady (getField l f) :=
  ends_getField_of_record (P := fun f' => f.tracer.Steady f'.tracer) (Tracer.Steady.refl _)
    (fun op f' h => (steady_record op f').behind h) fun _ _ _ _ => steady_guardField l f

/-- The guard that fails at a branch: the loop that runs was traced the other way. -/
def failing? (f : Frame) (cond : Bool) : Option (Handle × Nat) :=
  match f.mode with
  | .running h expected n => if expected[n]? = some (!cond) then some (h, n) else none
  | _ => none

theorem mode_of_failing? {cond : Bool} {h : Handle} {i : Nat} (hf : f.failing? cond = some (h, i)) :
    ∃ expected, f.mode = .running h expected i ∧ expected[i]? = some (!cond) := by
  unfold failing? at hf
  split at hf
  · split_ifs at hf with he
    obtain ⟨rfl, rfl⟩ := Prod.mk.inj (Option.some.inj hf)
    exact ⟨_, ‹_›, he⟩
  · cases hf

theorem branch_of_failing? {cond : Bool} {h : Handle} {i : Nat}
    (hf : f.failing? cond = some (h, i)) :
    branch cond f = .ok () { f with
      tracer := (f.tracer.guardFailed h i).1
      mode := (f.tracer.guardFailed h i).2 } := by
  obtain ⟨expected, hm, he⟩ := mode_of_failing? hf
  rw [branch_eq, hm]
  dsimp only
  rw [he]
  dsimp only
  rw [if_neg (by simp)]

/-- A branch counts nothing, unless its guard fails. -/
theorem steady_branch {cond : Bool} (hf : f.failing? cond = none) : f.Steady (branch cond f) := by
  obtain ⟨t, m, e⟩ := f
  rw [branch_eq]
  cases m with
  | interpreting => exact Tracer.Steady.refl t
  | runningBridge b => exact Tracer.Steady.refl t
  | tracingLoop r => exact steady_record _ ⟨t, _, e⟩
  | tracingBridge p i r => exact steady_record _ ⟨t, _, e⟩
  | running h expected n =>
      dsimp only [failing?] at hf ⊢
      cases he : expected[n]? with
      | none => exact Tracer.Steady.refl t
      | some direction =>
          dsimp only
          split_ifs with hd
          · exact Tracer.Steady.refl t
          · rw [he, if_pos] at hf
            · cases hf
            · rw [Bool.eq_not_of_ne hd]

theorem steady_afterRevocation (hc : f.tracer.cache.Sound) (i : Invalidation) :
    f.Steady (afterRevocation i f) := by
  have hgone : f.tracer.Steady (f.revoked i).tracer := Tracer.steady_retireDependents hc i
  exact ends_afterRevocation (fun _ => hgone)
    fun _ => (steady_abortTrace .forcedWrite _).behind hgone

theorem steady_storeField (h : f.tracer.cache.Sound) (l : Location) (value : Int) :
    f.Steady (storeField l value f) := by
  refine ends_storeField (fun _ _ => Tracer.Steady.refl _) (fun t hw => Tracer.steady_write hw)
    fun t i hw => ?_
  exact (steady_afterRevocation (f := { f with tracer := t })
    (Tracer.sound_of_write h hw) i).behind (Tracer.steady_write hw)

theorem steady_setField (h : f.Poised g n) (l : Location) (value : Int) :
    f.Steady (setField l value f) := by
  have hrecord := (poised_record h (.setField l)).and (steady_record (.setField l) f)
  rw [setField_eq]
  refine Ends.bind (hrecord.imp (fun _ f' h' => ?_) fun _ _ h' => h'.2)
  exact (steady_storeField h'.1.sound l value).behind h'.2

end Frame

theorem Call.steady_perform {g : Settings} {n : Nat} {c : Call} (hc : c.Outside) {t : Tracer}
    (h : t.Ready g n) : t.Steady (c.perform t) := by
  have hfit : ∀ {t' : Tracer}, t'.Ready g n → t'.Fit g n ⟨0, "", [], []⟩ .interpreting :=
    fun h => (h.poised _).toFit
  refine (Call.keeps_outside (K := fun t' => t.Steady t' ∧ t'.Ready g n) hc
    ⟨Tracer.Steady.refl t, h⟩ (fun hw => ?_) (fun i h' => ?_) (fun heap => ?_) fun o => ?_).1
  · exact ⟨Tracer.steady_write hw, (Tracer.fit_write (hfit h) hw).toReady⟩
  · exact ⟨h'.1.trans (Tracer.steady_retireDependents h'.2.sound i),
      (Tracer.fit_retireDependents (hfit h'.2) i).toReady⟩
  · exact ⟨Tracer.Steady.of_cache rfl rfl fun _ _ he => he,
      h.sound, h.settled, h.unannounced, h.forced, h.settings⟩
  · exact ⟨Tracer.Steady.of_cache rfl rfl fun _ _ he => he,
      h.sound, h.settled, h.unannounced, h.forced, h.settings⟩

end HotLoop
