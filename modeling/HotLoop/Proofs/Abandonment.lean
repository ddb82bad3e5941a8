import HotLoop.Proofs.Forcing
import HotLoop.Proofs.Occasions

/-!
# Attempts that nobody ends

Where a body faults, the run ends at once: the trace that is open is not given up, and nobody is
told. If it was to become a loop, its site stays in the phase of an attempt from then on, and these
are the only sites that do. Such a site is never traced again, and the pass at which it would be
faults.
-/

namespace HotLoop

open Code Journal Lifecycle Trace

/-- A run was broken off while the loop of the site was traced. -/
def Abandoned (past : List Occasion) (s : Site) : Prop :=
  ∃ f err, .breakOff f err ∈ past ∧ f.mode.attempt? f.entry = some s

namespace Tracer

/-- The site is being compiled, but not by the open trace. -/
def Stranded (e : EntryPoint) (t : Tracer) (m : Mode) (s : Site) : Prop :=
  t.monitor.ledger.phase s = .compiling ∧ m.attempt? e ≠ some s

def Strands (W : Site → Prop) (e : EntryPoint) (t : Tracer) (m : Mode) : Prop :=
  ∀ s, t.Stranded e m s ↔ W s

variable {W : Site → Prop} {g : Settings} {n : Nat} {e e' : EntryPoint} {t t' : Tracer}
  {m m' : Mode} {k : Key}

theorem Strands.closes (h : t.Strands W e m)
    (hc : t.monitor.ledger.Closes (m.attempt? e) t'.monitor.ledger) (hm : m'.attempt? e' = none) :
    t'.Strands W e' m' := by
  intro s
  rw [← h s, Stranded, hc s, hm]
  simp [Stranded]

theorem Strands.same (h : t.Strands W e m) (hc : t.monitor.ledger.Closes none t'.monitor.ledger)
    (hm : m'.attempt? e = m.attempt? e) : t'.Strands W e m' := by
  intro s
  rw [← h s, Stranded, hc s, hm]
  simp [Stranded]

theorem Strands.sameLedger (h : t.Strands W e m)
    (hl : t'.monitor.ledger = t.monitor.ledger) (hm : m'.attempt? e = m.attempt? e) :
    t'.Strands W e m' :=
  h.same (hl ▸ Ledger.Closes.refl _) hm

theorem Strands.forgetAll (h : t.Strands W e m) (gone : List Handle) :
    (t.forgetAll gone).Strands W e m := by
  refine h.same ?_ rfl
  rw [(forgetAll_reported t gone).ledger]
  exact Ledger.closes_foldl_forget gone _

/-! ## Heads -/

theorem strands_countHit (h : t.Strands W e .interpreting) (hk : t.shapes.Accepts e k) :
    Ends (fun m' t' => t'.Strands W e m') (fun _ t' => t'.Strands W e .interpreting)
      (countHit e k t) := by
  rcases countHit_cases hk with ⟨t', hx, -, -, hm⟩ |
    ⟨t', ⟨hx, -, hm⟩ | ⟨hx, htakes⟩, -, -⟩ <;> rw [hx]
  · exact h.sameLedger (congrArg Monitor.ledger hm) rfl
  · exact h.sameLedger (congrArg Monitor.ledger hm) rfl
  · intro s
    rw [← h s, Stranded, Stranded, htakes.closes_of_begin s]
    simp [Mode.attempt?]

theorem strands_enterOrCount (h : t.Strands W e .interpreting) (hr : t.Ready g n)
    (hk : t.shapes.Accepts e k) :
    Ends (fun m' t' => t'.Strands W e m') (fun _ t' => t'.Strands W e .interpreting)
      (enterOrCount e k t) := by
  rw [enterOrCount_eq]
  split_ifs
  · cases hl : t.cache.loop? (e.site k) with
    | none => exact strands_countHit h hk
    | some j =>
        obtain ⟨a, haj, -⟩ := (hr.sound.loop_iff _ _).1 hl
        dsimp only
        rcases fit_enter (hr.poised e).toFit haj with ⟨hin, -⟩ | ⟨l, hout, hout'⟩
        · rw [hin]
          exact h.sameLedger rfl rfl
        · rw [hout]
          have h' : ((t.enter j).1.note [.loopRefused j l]).Strands W e .interpreting := h
          refine strands_countHit (h'.forgetAll _) ?_
          rw [(hout' [.loopRefused j l]).2.1]
          exact hk
  · exact h

theorem strands_mergePoint (h : t.Strands W e m) (hp : t.Poised g n e m)
    (hk : t.shapes.Accepts e k) :
    Ends (fun m' t' => t'.Strands W e m') (fun _ t' => t'.Strands W e .interpreting)
      (mergePoint e k m t) := by
  have hnext : ∀ t', t'.Ready g n ∧ t'.shapes = t.shapes ∧
        t.monitor.ledger.Closes (m.attempt? e) t'.monitor.ledger →
      Ends (fun m' t' => t'.Strands W e m') (fun _ t' => t'.Strands W e .interpreting)
        (enterOrCount e k t') := by
    rintro t' ⟨hready, hshapes, hc⟩
    exact strands_enterOrCount (h.closes hc rfl) hready (hshapes ▸ hk)
  refine ends_mergePoint ?_ ?_ (fun _ _ _ => h) fun hm => ?_
  · rintro rec rfl -
    exact Ends.bind ((ready_closeLoop hp).imp (fun _ => hnext) fun _ t' ht => h.closes ht.2 rfl)
  · rintro p i rec rfl -
    exact Ends.bind ((ready_closeBridge hp).imp (fun _ => hnext) fun _ t' ht => h.closes ht.2 rfl)
  · refine strands_enterOrCount (h.sameLedger rfl ?_) hp.toReady hk
    rw [Mode.attempt?_of_recording? hm]
    rfl

theorem strands_leaveLoop (h : t.Strands W e m) (hf : t.Fit g n e m) :
    Ends (fun _ t' => t'.Strands W e .interpreting) (fun _ t' => t'.Strands W e .interpreting)
      (leaveLoop e m t) := by
  have hends : ∀ {rec cause}, m.recording? = some rec →
      Ends (fun _ t' => t'.Strands W e .interpreting) (fun _ t' => t'.Strands W e .interpreting)
        (report (.abort cause e rec.key) t) := fun hr =>
    (ready_abort hf hr _).imp (fun _ _ ht => h.closes (hf.closes hr ht.2) rfl)
      fun _ _ ht => h.closes (hf.closes hr ht.2) rfl
  cases m with
  | tracingLoop r => exact hends rfl
  | tracingBridge p i r => exact hends rfl
  | _ => exact h

theorem strands_guardFailed {j : Handle} {expected : List Bool} {k : Nat}
    (h : t.Strands W e (.running j expected k)) (i : Nat) :
    (t.guardFailed j i).1.Strands W e (t.guardFailed j i).2 := by
  have hcount : ∀ t' : Tracer, t'.Strands W e (.running j expected k) →
      (t'.countFailure j i).1.Strands W e (t'.countFailure j i).2 := by
    intro t' h'
    unfold countFailure
    cases t'.cache.get? j with
    | none => exact h'
    | some a =>
        dsimp only
        split_ifs <;> exact h'
  rw [guardFailed_eq]
  cases t.cache.bridge? j i with
  | none => exact hcount t h
  | some b =>
      dsimp only
      cases (t.cache.enter b).2 with
      | entered => exact h.sameLedger rfl rfl
      | guardFailed l retired =>
          have h' : (t.enter b).1.Strands W e (.running j expected k) := h
          exact hcount _ (h'.forgetAll retired)
      | dead => exact hcount _ (h.sameLedger rfl rfl)

end Tracer

/-! ## Frames -/

namespace Frame

variable {W : Site → Prop} {g : Settings} {n : Nat} {f : Frame}

def Strands (W : Site → Prop) (f : Frame) : Prop := f.tracer.Strands W f.entry f.mode

def Stranding (W : Site → Prop) {α : Type} (r : EStateM.Result Fault Frame α) : Prop :=
  Ends (fun _ f' => f'.Strands W) (fun _ f' => f'.tracer.Strands W f'.entry .interpreting) r

theorem Strands.modifyRecording (h : f.Strands W) {k : Recording → Recording}
    (hk : ∀ r, (k r).key = r.key) : Strands W { f with mode := f.mode.modifyRecording k } :=
  Tracer.Strands.sameLedger h rfl (Mode.attempt?_modifyRecording f.entry hk f.mode)

theorem strands_abortTrace (h : f.Strands W) (hf : f.tracer.Fit g n f.entry f.mode)
    (cause : Abort) : Stranding W (abortTrace cause f) := by
  refine ends_abortTrace (fun _ => h) fun r hr => ?_
  have hnote := hf.note [.traceGivenUp f.entry r.key cause]
  exact (Tracer.ready_abort hnote hr cause).imp
    (fun _ _ ht => Tracer.Strands.closes h (hnote.closes hr ht.2) rfl)
    fun _ _ ht => Tracer.Strands.closes h (hnote.closes hr ht.2) rfl

theorem strands_record (h : f.Strands W) (hp : f.Poised g n) (op : Op) :
    Stranding W (record op f) := by
  have hrec : (f.recorded op).Poised g n := hp.modifyRecording (fun _ => rfl) fun _ => rfl
  have hsame : (f.recorded op).Strands W := h.modifyRecording fun _ => rfl
  exact ends_record (fun _ => h) (fun _ _ _ => hsame)
    fun _ _ _ => strands_abortTrace hsame hrec.toFit .tooLong

theorem strands_guardField (h : f.Strands W) (l : Location) : (f.guardField l).1.Strands W :=
  of_guardField h fun _ _ _ _ => Strands.modifyRecording h fun _ => rfl

def Tracks (g : Settings) (W : Site → Prop) (f : Frame) : Prop :=
  (∃ n, f.Poised g n) ∧ f.Strands W

def Tracking (g : Settings) (W : Site → Prop) {α : Type} (r : EStateM.Result Fault Frame α) : Prop :=
  Ends (fun _ f' => f'.Tracks g W) (fun _ f' => Tracks g W { f' with mode := .interpreting }) r

theorem tracking_of_poised {α : Type} {r : EStateM.Result Fault Frame α}
    (hp : Ends (fun _ f' => ∃ n, f'.Poised g n) (fun _ f' => ∃ n, f'.Poised g n) r)
    (hs : Stranding W r) : Tracking g W r :=
  (hp.and hs).imp (fun _ _ h => h) fun _ f' h => ⟨h.1.imp fun _ hn => hn.toReady.poised f'.entry, h.2⟩

theorem tracking_record (h : f.Tracks g W) (op : Op) : Tracking g W (record op f) := by
  obtain ⟨⟨n, hp⟩, hs⟩ := h
  refine tracking_of_poised ?_ (strands_record hs hp op)
  exact (poised_record hp op).imp (fun _ _ h => ⟨n, h⟩) fun _ _ h => ⟨n, h⟩

theorem tracking_getField (h : f.Tracks g W) (l : Location) : Tracking g W (getField l f) := by
  refine ends_getField_of_record h (fun op _ h => tracking_record h op) fun _ _ hq hfold => ?_
  obtain ⟨⟨n, hp⟩, hs⟩ := h
  exact ⟨⟨n, poised_guardField hp hq hfold⟩, strands_guardField hs l⟩

theorem tracking_branch (h : f.Tracks g W) (cond : Bool) : Tracking g W (branch cond f) := by
  obtain ⟨t, m, e⟩ := f
  obtain ⟨⟨n, hp⟩, hs⟩ := id h
  refine ends_branch h (fun r _ => tracking_record ?_ _) ?_ ?_ ?_
  · exact ⟨⟨n, hp.modifyRecording (fun _ => rfl) fun _ => rfl⟩, hs.modifyRecording fun _ => rfl⟩
  · rintro j expected i rfl
    exact ⟨⟨n, hp.toReady.poised e⟩, hs⟩
  · rintro j expected i rfl
    exact ⟨⟨n, hp.toReady.turn rfl hp.fits (Mode.not_guards_of_recording? rfl)⟩, hs⟩
  · rintro j expected i rfl
    exact ⟨⟨n, Tracer.poised_guardFailed hp.toFit i⟩, Tracer.strands_guardFailed hs i⟩

theorem strands_afterRevocation {i : Invalidation} (h : f.Strands W)
    (hf : f.tracer.Fit g n f.entry f.mode) : Stranding W (afterRevocation i f) := by
  have hmode : (f.modeWithout (f.tracer.retireDependents i).2).attempt? f.entry =
      f.mode.attempt? f.entry := by
    unfold modeWithout
    split_ifs with ha
    · obtain ⟨j, hj, -⟩ := (Option.any_eq_true _ _).1 ha
      rw [Mode.attempt?_of_artifact? hj]
      rfl
    · rfl
  have hgone : (f.tracer.retireDependents i).1.Strands W f.entry f.mode := h
  have hs : (f.revoked i).Strands W :=
    (hgone.forgetAll (f.tracer.retireDependents i).2).sameLedger rfl hmode
  exact ends_afterRevocation (fun _ => hs) fun _ => strands_abortTrace hs
    (fit_modeWithout (Tracer.fit_retireDependents hf i) _) .forcedWrite

theorem strands_storeField (h : f.Strands W) (hf : f.tracer.Fit g n f.entry f.mode) (l : Location)
    (value : Int) : Stranding W (storeField l value f) := by
  have ht : ∀ {t : Tracer} {i : Option Invalidation}, f.tracer.write l value = .ok (t, i) →
      Strands W { f with tracer := t } := by
    intro t i hw
    obtain ⟨-, -, -, -, hm, -⟩ := Tracer.write_eq_ok hw
    exact Tracer.Strands.sameLedger h (congrArg Monitor.ledger hm) rfl
  exact ends_storeField (fun _ _ => h) (fun _ hw => ht hw)
    fun _ _ hw => strands_afterRevocation (ht hw) (Tracer.fit_write hf hw)

theorem tracking_setField (h : f.Tracks g W) (l : Location) (value : Int) :
    Tracking g W (setField l value f) := by
  obtain ⟨⟨n, hp⟩, hs⟩ := id h
  have hends : Ends (fun _ f' => ∃ n, f'.Poised g n) (fun _ f' => ∃ n, f'.Poised g n)
      (setField l value f) :=
    (wrote_setField hp l value).imp (fun _ _ h => ⟨_, h.poised⟩) fun _ _ h => ⟨_, h.poised⟩
  refine tracking_of_poised hends ?_
  rw [setField_eq]
  refine Ends.bind ((tracking_record h _).imp (fun _ f' h' => ?_) fun _ _ h' => h'.2)
  obtain ⟨⟨n', hp'⟩, hs'⟩ := h'
  exact strands_storeField hs' hp'.toFit l value

theorem Tracks.rest {t : Tracer} {e : EntryPoint} (h : Tracks g W ⟨t, .interpreting, e⟩)
    (e' : EntryPoint) : Tracks g W ⟨t, .interpreting, e'⟩ :=
  ⟨h.1.imp fun _ hp => hp.toReady.poised e', h.2⟩

end Frame

/-! ## Runs and clients -/

section

variable {g : Settings} {past : List Occasion} {f : Frame} {s : Site}

theorem abandoned_concat {o : Occasion} : Abandoned (past ++ [o]) s ↔
    Abandoned past s ∨ ∃ f err, o = .breakOff f err ∧ f.mode.attempt? f.entry = some s := by
  simp only [Abandoned, List.mem_append, List.mem_singleton, or_and_right, exists_or, eq_comm]

theorem abandoned_head (past : List Occasion) (f : Frame) (k : Key) :
    Abandoned (past ++ [.head f k]) = Abandoned past := by
  funext s
  simp [abandoned_concat]

theorem abandoned_branch (past : List Occasion) (f : Frame) (cond : Bool) :
    Abandoned (past ++ [.branch f cond]) = Abandoned past := by
  funext s
  simp [abandoned_concat]

theorem Frame.Tracks.breakOff (h : f.Tracks g (Abandoned past)) (err : Fault) :
    Occasion.AtRest (fun past f => f.Tracks g (Abandoned past)) (past ++ [.breakOff f err])
      f.tracer := by
  obtain ⟨⟨n, hp⟩, hs⟩ := h
  refine fun e => ⟨⟨n, hp.toReady.poised e⟩, fun s => ?_⟩
  rw [abandoned_concat, ← hs s]
  constructor
  · rintro ⟨hc, -⟩
    by_cases ha : f.mode.attempt? f.entry = some s
    · exact Or.inr ⟨f, err, rfl, ha⟩
    · exact Or.inl ⟨hc, ha⟩
  · rintro (⟨hc, -⟩ | ⟨f', err', he, ha⟩)
    · exact ⟨hc, by simp [Mode.attempt?]⟩
    · cases he
      exact ⟨hp.attempt s ha, by simp [Mode.attempt?]⟩

theorem invariant_tracks (g : Settings) :
    Occasion.Invariant (fun past f => f.Tracks g (Abandoned past)) where
  checkKey := fun {past f} k h => by
    obtain ⟨⟨n, hp⟩, hs⟩ := h
    have hs' : Ends (fun _ t => t.Strands (Abandoned past) f.entry f.mode)
        (fun _ t => t.Strands (Abandoned past) f.entry f.mode)
        (Tracer.onMonitor (Shapes.checkKey f.entry k) f.tracer) := by
      unfold Tracer.onMonitor Shapes.checkKey
      cases f.tracer.shapes.check f.entry k <;> exact hs
    exact ((Tracer.poised_checkKey hp f.entry k).and hs').imp (fun _ _ h => ⟨⟨n, h.1⟩, h.2⟩)
      fun _ _ h => ⟨⟨n, h.1⟩, h.2⟩
  mergePoint := fun {past f} k h hk => by
    obtain ⟨⟨n, hp⟩, hs⟩ := h
    simp only [Occasion.AtRest, abandoned_head]
    exact ((Tracer.poised_mergePoint hp hk).and (Tracer.strands_mergePoint hs hp hk)).imp
      (fun _ _ h => ⟨⟨n, h.1⟩, h.2⟩) fun _ _ h => Frame.Tracks.rest ⟨⟨n, h.1.poised _⟩, h.2⟩
  leaveLoop := fun h => by
    obtain ⟨⟨n, hp⟩, hs⟩ := h
    exact ((Tracer.ready_leaveLoop hp.toFit).and (Tracer.strands_leaveLoop hs hp.toFit)).imp
      (fun _ _ h => Frame.Tracks.rest ⟨⟨n, h.1.poised _⟩, h.2⟩)
      fun _ _ h => Frame.Tracks.rest ⟨⟨n, h.1.poised _⟩, h.2⟩
  getField := fun l h => (Frame.tracking_getField h l).imp (fun _ _ h => h) fun _ _ h => h.rest
  setField := fun l value h =>
    (Frame.tracking_setField h l value).imp (fun _ _ h => h) fun _ _ h => h.rest
  branch := fun {past f} cond h => by
    simp only [Occasion.AtRest, abandoned_branch]
    exact (Frame.tracking_branch h cond).imp (fun _ _ h => h) fun _ _ h => h.rest
  breakOff := fun err h => h.breakOff err

theorem Call.tracks_perform {c : Call} (hc : c.Outside) {t : Tracer}
    (h : Occasion.AtRest (fun past f => f.Tracks g (Abandoned past)) past t) :
    Occasion.AtRest (fun past f => f.Tracks g (Abandoned past)) past (c.perform t) := by
  intro e
  obtain ⟨⟨n, hp⟩, hs⟩ := h e
  have hs' : (c.perform t).Strands (Abandoned past) e .interpreting := by
    refine Call.keeps_outside (K := fun t => t.Strands (Abandoned past) e .interpreting) hc hs
      (fun hw => ?_) (fun {t'} i h' => ?_) (fun _ => hs) fun _ => hs
    · obtain ⟨-, -, -, -, hm, -⟩ := Tracer.write_eq_ok hw
      exact hs.sameLedger (congrArg Monitor.ledger hm) rfl
    · have h'' : (t'.retireDependents i).1.Strands (Abandoned past) e .interpreting := h'
      exact h''.forgetAll _
  exact ⟨⟨n, (c.ready_perform hc hp.toReady).poised e⟩, hs'⟩

/-- At a stranded site a pass is counted, or the attempt that it begins is refused. -/
theorem Tracer.mergePoint_of_stranded {n : Nat} {e : EntryPoint} {t : Tracer} {m : Mode} {k : Key}
    (hp : t.Poised g n e m) (hk : t.shapes.Accepts e k) (hs : t.Stranded e m (e.site k)) :
    (m.recording?.isSome = true → mergePoint e k m t = .ok m t) ∧
      (m.recording? = none → g.enabled = true → ∃ t', mergePoint e k m t =
        if t.hits.findD (e.site k) 0 + 1 < g.threshold then .ok .interpreting t'
        else .error (.attemptInProgress e k) t') := by
  obtain ⟨hc, hopen⟩ := hs
  have hcount : g.enabled = true → ∃ t', enterOrCount e k t =
      if t.hits.findD (e.site k) 0 + 1 < g.threshold then .ok .interpreting t'
      else .error (.attemptInProgress e k) t' := by
    intro hon
    have hl : t.cache.loop? (e.site k) = none := by
      rw [Option.eq_none_iff_forall_ne_some]
      exact fun j hj => (hp.settled _ j hj).2.2 hc
    rw [enterOrCount_eq, hp.settings, if_pos hon, hl, ← hp.settings]
    rcases countHit_cases hk with ⟨t', hx, hlt, -⟩ | ⟨t', ⟨hx, -⟩ | ⟨-, htakes⟩, hle, -⟩
    · exact ⟨t', by rw [if_pos hlt]; exact hx⟩
    · exact ⟨t', by rw [if_neg (Nat.not_lt.2 hle)]; exact hx⟩
    · exact absurd rfl ((htakes.closes_of_begin _).1 hc).2
  cases m with
  | tracingLoop r =>
      have hne : r.key ≠ k := by
        rintro rfl
        exact hopen rfl
      refine ⟨fun _ => ?_, fun hm => by cases hm⟩
      change (if r.key = k then _ else _ : EStateM Fault Tracer Mode) t = _
      rw [if_neg hne]
      rfl
  | tracingBridge p i r =>
      have hne : r.key ≠ k := by
        rintro rfl
        exact hp.fits.2.1.2.2 hc
      refine ⟨fun _ => ?_, fun hm => by cases hm⟩
      change (if r.key = k then _ else _ : EStateM Fault Tracer Mode) t = _
      rw [if_neg hne]
      rfl
  | _ => exact ⟨(fun hm => by cases hm), fun _ => hcount⟩

end

/-- Where a body faults or a key is refused, the run ends as it is at that moment: its client gets
the fault, and an open trace is neither given up nor reported. Between the calls those sites are
being compiled whose loop was traced when a run was broken off, and no others. From then on a pass
of such a site is counted, if no other trace stays open, and when there were enough of them the run
faults, since its attempt is refused. -/
theorem broken_off_attempts (settings : Settings) (cs : List Call) :
    let new : Tracer := { settings := settings }
    (∀ (c : Call) t f err, .breakOff f err ∈ c.occasions t →
      c.fault? t = some err ∧ c.perform t = f.tracer) ∧
    (∀ past, past <+: cs → ∀ s,
      (past.foldl (fun t c => c.perform t) new).monitor.ledger.phase s = .compiling ↔
        Abandoned (occasions past new) s) ∧
    ∀ before f k after, occasions cs new = before ++ .head f k :: after →
      Abandoned before (f.entry.site k) →
      (f.mode.recording?.isSome = true →
        Tracer.mergePoint f.entry k f.mode f.tracer = .ok f.mode f.tracer) ∧
      (f.mode.recording? = none → settings.enabled = true →
        ∃ t, Tracer.mergePoint f.entry k f.mode f.tracer =
          if f.tracer.hits.findD (f.entry.site k) 0 + 1 < settings.threshold then
            .ok .interpreting t
          else .error (.attemptInProgress f.entry k) t) := by
  intro new
  have hnew : Occasion.AtRest (fun past f => f.Tracks settings (Abandoned past)) [] new := by
    refine fun e => ⟨⟨0, (Tracer.Ready.new settings).poised e⟩, fun s => iff_of_false ?_ ?_⟩
    · rintro ⟨hc, -⟩
      cases hc
    · rintro ⟨f, err, hm, -⟩
      cases hm
  have hcalls : ∀ c ∈ cs, c.Outside → ∀ {past t},
      Occasion.AtRest (fun past f => f.Tracks settings (Abandoned past)) past t →
        Occasion.AtRest (fun past f => f.Tracks settings (Abandoned past)) past (c.perform t) :=
    fun c _ hc _ _ h => c.tracks_perform hc h
  obtain ⟨hos, hpasts⟩ := (invariant_tracks settings).calls hcalls hnew
  refine ⟨fun c t f err hm => c.fault?_of_stop? hm rfl, fun past hpast s => ?_, ?_⟩
  · obtain ⟨-, hs⟩ := hpasts past hpast ⟨0, "", [], []⟩
    rw [List.nil_append] at hs
    rw [← hs s]
    simp [Tracer.Stranded, Mode.attempt?]
  · intro before f k after he habandoned
    obtain ⟨⟨⟨n, hp⟩, hs⟩, hk⟩ := hos.split he
    rw [List.nil_append] at hs
    exact Tracer.mergePoint_of_stranded hp hk ((hs _).2 habandoned)

/-- A sum that leaves 64 bits in its first pass, which is traced, and the same program once more. -/
def overflowing : List Call :=
  let sum := Program.greenSum (Program.greenSumEntry 0) 0x7fffffffffffffff 1
  [.run sum { total := 1 }, .run sum {}]

/-- The first run leaves its attempt, with which the second one, that would not overflow, collides. -/
theorem overflow_leaves_attempt :
    let new : Tracer := { settings := { threshold := 1 } }
    let site : Site := ⟨0, ⟨[.int 0x7fffffffffffffff, .int 1]⟩⟩
    let t := (overflowing.take 1).foldl (fun t c => c.perform t) new
    faults overflowing new = [.addOverflow, .attemptInProgress (Program.greenSumEntry 0) site.key] ∧
      t.monitor.ledger.phase site = .compiling ∧ t.monitor.ledger.tally.aborts.total = 0 := by
  decide +kernel

theorem broken_off_attempts_overflowing :
    let new : Tracer := { settings := { threshold := 1 } }
    let site : Site := ⟨0, ⟨[.int 0x7fffffffffffffff, .int 1]⟩⟩
    Abandoned (occasions (overflowing.take 1) new) site ∧ ∃ f t,
      occasions overflowing new =
        occasions (overflowing.take 1) new ++ [.head f site.key] ∧
      Tracer.mergePoint f.entry site.key f.mode f.tracer =
        .error (.attemptInProgress f.entry site.key) t := by
  intro new site
  obtain ⟨-, hcompiling, hheads⟩ := broken_off_attempts { threshold := 1 } overflowing
  have habandoned := (hcompiling _ (List.take_prefix 1 overflowing) site).1 (by decide +kernel)
  have hlast : ∃ f, occasions overflowing new =
      occasions (overflowing.take 1) new ++ [.head f site.key] ∧ f.mode = .interpreting ∧
        f.entry = Program.greenSumEntry 0 ∧ f.tracer.hits.findD (f.entry.site site.key) 0 = 0 :=
    ⟨_, rfl, rfl, rfl, rfl⟩
  obtain ⟨f, he, hm, hentry, hhits⟩ := hlast
  obtain ⟨t, ht⟩ := (hheads _ f site.key [] he (by rw [hentry]; exact habandoned)).2
    (by rw [hm]; rfl) rfl
  rw [hhits, if_neg (by decide)] at ht
  exact ⟨habandoned, f, t, he, ht⟩

end HotLoop
