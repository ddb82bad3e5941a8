import HotLoop.Proofs.Forcing
import HotLoop.Proofs.Recordings

/-!
# Traces are installed well formed

Open traces grow by the operations of their frame alone, within the limit, and closing them installs
what they hold with a jump behind it. A write that would spoil a trace, since the trace has folded a
read of its location, gives the trace up at once. So whatever is installed is well formed.
-/

namespace HotLoop

open Code Journal Lifecycle Trace Versions

namespace Mode

def tracesLoop : Mode → Bool
  | .tracingLoop _ => true
  | _ => false

theorem tracesLoop_modifyRecording (m : Mode) (k : Recording → Recording) :
    (m.modifyRecording k).tracesLoop = m.tracesLoop := by
  cases m <;> rfl

def Grows (limit : Nat) (m : Mode) : Prop :=
  ∀ r, m.recording? = some r → r.Grown m.tracesLoop ∧ r.ops.length ≤ limit

end Mode

/-! ## Caches -/

namespace Code.Cache

def WellFormed (limit : Nat) (c : Cache) : Prop :=
  ∀ h a, c.get? h = some a → Trace.WellFormed limit (decide a.IsLoop) a.guards a.operations

structure Growing (limit : Nat) (c : Cache) (m : Mode) : Prop where
  /-- The label of a loop fits into a trace. -/
  room : 0 < limit
  sound : c.Sound
  wellFormed : c.WellFormed limit
  recording : m.Grows limit

variable {limit : Nat} {c c' : Cache} {m m' : Mode} {g : Guards} {ops : List Op}

theorem WellFormed.body {a a' : Artifact} {h : Handle} (hc : c.WellFormed limit)
    (ha : c.get? h = some a) (hb : a.SameBody a') :
    Trace.WellFormed limit (decide a'.IsLoop) a'.guards a'.operations := by
  have hloop : a'.IsLoop ↔ a.IsLoop := by
    unfold Artifact.IsLoop
    rw [hb.kind]
  rw [decide_eq_decide.2 hloop, hb.guards, hb.operations]
  exact hc h a ha

namespace Growing

theorem turn (h : c.Growing limit m) (hm : m'.Grows limit) : c.Growing limit m' :=
  { h with recording := hm }

theorem of_recording? (h : c.Growing limit m) (hm : m'.recording? = none) :
    c.Growing limit m' := by
  refine h.turn fun r hr => ?_
  rw [hm] at hr
  cases hr

theorem interpreting (h : c.Growing limit m) : c.Growing limit .interpreting :=
  h.of_recording? rfl

theorem start (h : c.Growing limit m) {r : Recording} (hr : m'.recording? = some r)
    (hg : r.Grown m'.tracesLoop) (hl : r.ops.length ≤ 1) : c.Growing limit m' := by
  refine h.turn fun r' hr' => ?_
  obtain rfl := Option.some.inj (hr.symm.trans hr')
  exact ⟨hg, hl.trans h.room⟩

/-- Closing the open trace makes it well formed. -/
theorem closed (h : c.Growing limit m) {r : Recording} (hr : m.recording? = some r) :
    Trace.WellFormed limit m.tracesLoop r.guards (r.ops ++ [.jump]) := by
  obtain ⟨hgrown, hlen⟩ := h.recording r hr
  exact hgrown.wellFormed hlen

theorem evolve (h : c.Growing limit m) (hc : c'.Sound)
    (hl : ∀ j a', c'.get? j = some a' → ∃ a, c.get? j = some a ∧ a.SameBody a') :
    c'.Growing limit m where
  room := h.room
  sound := hc
  wellFormed := fun j a' ha' => by
    obtain ⟨a, ha, hb⟩ := hl j a' ha'
    exact h.wellFormed.body ha hb
  recording := h.recording

theorem versions (h : c.Growing limit m) {t : Versions} (hc : Sound { c with versions := t }) :
    Growing limit { c with versions := t } m :=
  h.evolve hc fun _ a ha => ⟨a, ha, Artifact.SameBody.refl a⟩

theorem without (h : c.Growing limit m) {gone : List Handle} (hw : c.Without c' gone) :
    c'.Growing limit m := by
  refine h.evolve (hw.sound h.sound) fun j a' ha' => ?_
  obtain ⟨a, ha, hl⟩ := hw.live j a' ha'
  exact ⟨a, ha, hl.sameBody⟩

theorem enter (h : c.Growing limit m) (j : Handle) : (c.enter j).1.Growing limit m :=
  h.evolve (h.sound.enter j) fun _ _ ha' => body_enter h.sound ha'

theorem install (h : c.Growing limit m) {loop : Bool} (hc : c'.Sound)
    (hops : Trace.WellFormed limit loop g ops)
    (hl : ∀ j a', c'.get? j = some a' →
      decide a'.IsLoop = loop ∧ a'.guards = g ∧ a'.operations = ops ∨
        ∃ a, c.get? j = some a ∧ a.SameBody a') :
    c'.Growing limit .interpreting := by
  refine of_recording? (m := m) ⟨h.room, hc, fun j a' ha' => ?_, h.recording⟩ rfl
  rcases hl j a' ha' with ⟨rfl, rfl, rfl⟩ | ⟨a, ha, hb⟩
  · exact hops
  · exact h.wellFormed.body ha hb

theorem addLoop (h : c.Growing limit m) (s : Site) (hops : Trace.WellFormed limit true g ops) :
    (c.addLoop s g ops).1.Growing limit .interpreting := by
  refine h.install (h.sound.addLoop s g ops) hops fun j a' ha' => ?_
  exact (body_addLoop h.sound ha').imp_left fun hn => ⟨decide_eq_true hn.1, hn.2⟩

theorem addBridge (h : c.Growing limit m) {p : Handle} {a : Artifact} (ha : c.get? p = some a)
    (hk : a.kind = .loop) (i : Nat) (hops : Trace.WellFormed limit false g ops) :
    (c.addBridge p a.site i g ops).1.Growing limit .interpreting := by
  refine h.install (h.sound.addBridge ha hk i g ops) hops fun j a' ha' => ?_
  refine (body_addBridge ha').imp_left fun hn => ⟨decide_eq_false fun hl => ?_, hn.2⟩
  have hl : a'.kind = .loop := hl
  rw [hn.1] at hl
  cases hl

end Growing

end Code.Cache

/-! ## The tracer -/

namespace Tracer

variable {t t' : Tracer} {m : Mode}

def Growing (t : Tracer) (m : Mode) : Prop := t.cache.Growing t.settings.traceLimit m

theorem Growing.sameCode (h : t.Growing m) (ht : t.SameCode t') : t'.Growing m := by
  unfold Growing
  rw [ht.cache, ht.settings]
  exact h

/-- A trace begins with the label of a loop or with nothing, and what is closed is well formed. -/
theorem persists_growing : Persists Growing where
  sound := fun h => h.sound
  sameCode := fun h ht => h.sameCode ht
  stop := fun h => Cache.Growing.interpreting h
  enter := fun j h => Cache.Growing.interpreting (Cache.Growing.enter h j)
  traceLoop := fun k h => Cache.Growing.start h rfl (.start k) le_rfl
  run := fun _ h _ _ => Cache.Growing.of_recording? (Cache.Growing.enter h _) rfl
  addLoop := fun s h => Cache.Growing.addLoop h s (Cache.Growing.closed h rfl)
  addBridge := fun h ha hl => Cache.Growing.addBridge h ha hl _ (Cache.Growing.closed h rfl)
  traceBridge := fun k h _ => Cache.Growing.start h rfl (.start k) (Nat.zero_le 1)
  runBridge := fun h _ _ => Cache.Growing.of_recording? (Cache.Growing.enter h _) rfl

theorem growing_write {l : Location} {value : Int} {i : Option Invalidation} (h : t.Growing m)
    (hw : t.write l value = .ok (t', i)) : t'.Growing m := by
  obtain ⟨versions, -, hcache, hsettings, -⟩ := write_eq_ok hw
  have hsound := sound_of_write h.sound hw
  unfold Growing
  rw [hcache] at hsound
  rw [hcache, hsettings]
  exact Cache.Growing.versions h hsound

theorem growing_retireDependents (h : t.Growing m) (i : Invalidation) :
    ((t.retireDependents i).1.forgetAll (t.retireDependents i).2).Growing m := by
  have ht : (t.retireDependents i).1.Growing m :=
    Cache.Growing.without h (Cache.without_retireAll i.dependents h.sound)
  exact ht.sameCode (sameCode_forgetAll _ _)

end Tracer

/-! ## The operations of a frame -/

namespace Frame

variable {f f' : Frame} {m : Mode} {l : Location} {g : Settings} {n : Nat}

def Growing (f : Frame) : Prop := f.tracer.Growing f.mode

theorem Cleared.growing (h : f.Cleared f') (hf : f.tracer.Growing m) : f'.Growing :=
  Cache.Growing.of_recording? (hf.sameCode h.code) h.mode

theorem growing_of_recording {r : Recording} (h : f.tracer.Growing m)
    (hr : f.mode.recording? = some r) (hg : r.Grown f.mode.tracesLoop)
    (hl : r.ops.length ≤ f.tracer.settings.traceLimit) : f.Growing := by
  refine Cache.Growing.turn h fun r' hr' => ?_
  obtain rfl := Option.some.inj (hr.symm.trans hr')
  exact ⟨hg, hl⟩

/-! ### Giving up and recording -/

/-- An operation is recorded if there is room for it, and else the trace is given up. -/
theorem recorded_or_cleared {r : Recording} (hr : f.mode.recording? = some r) (op : Op) :
    Ends
      (fun _ f' => f' = f.recorded op ∧ r.ops.length < f.tracer.settings.traceLimit ∨ f.Cleared f')
      (fun _ f' => f.Cleared f') (record op f) := by
  refine ends_record (fun hnone => by rw [hr] at hnone; cases hnone) (fun r₁ hr₁ hroom => ?_)
    fun _ _ _ => ?_
  · obtain rfl := Option.some.inj (hr.symm.trans hr₁)
    exact Or.inl ⟨rfl, hroom⟩
  · exact (cleared_abortTrace .tooLong (f.recorded op)).imp
      (fun _ _ h => Or.inr ⟨h.code, h.mode⟩) fun _ _ h => ⟨h.code, h.mode⟩

theorem growing_record (h : f.tracer.Growing m) {op : Op}
    (hg : ∀ r, f.mode.recording? = some r →
      Recording.Grown f.mode.tracesLoop { r with ops := r.ops ++ [op] }) :
    Ends (fun _ => Growing) (fun _ => Growing) (record op f) := by
  cases hr : f.mode.recording? with
  | none =>
      rw [record_eq, hr]
      exact Cache.Growing.of_recording? h hr
  | some r =>
      refine (recorded_or_cleared hr op).imp ?_ fun _ _ hc => hc.growing h
      rintro - f' (⟨rfl, hroom⟩ | hc)
      · refine growing_of_recording (f := f.recorded op) h (recording?_recorded hr op) ?_ ?_
        · rw [recorded, Mode.tracesLoop_modifyRecording]
          exact hg r hr
        · rw [List.length_append]
          exact hroom
      · exact hc.growing h

/-! ### Reading -/

/-- The version of `l` is captured, and it becomes a guard if there is none on `l` yet. -/
theorem guardField_cases {r : Recording} (hr : f.mode.recording? = some r) (l : Location) :
    f.guardField l = ({ f with tracer := (f.tracer.capture l).1 }, false) ∧ r.guards.Covers l ∨
      ∃ v gs, v.location = l ∧ r.guards.push? v = some gs ∧ f.guardField l =
        ({ f with
          tracer := (f.tracer.capture l).1
          mode := f.mode.modifyRecording fun r => { r with guards := gs } }, true) := by
  have hl : (f.tracer.capture l).2.location = l := location_read f.tracer.cache.versions l
  unfold guardField
  dsimp only
  rw [hr, Option.bind_some]
  cases hp : r.guards.push? (f.tracer.capture l).2 with
  | none =>
      refine Or.inl ⟨rfl, ?_⟩
      unfold Guards.push? at hp
      split_ifs at hp with hcover
      rw [← hl]
      exact hcover
  | some gs => exact Or.inr ⟨_, gs, hl, hp, rfl⟩

theorem growing_getField (h : f.Growing) (l : Location) :
    Ends (fun _ => Growing) (fun _ => Growing) (getField l f) := by
  have hcapture : (f.tracer.capture l).1.Growing f.mode :=
    Cache.Growing.versions h (h.sound.read l)
  refine ends_getField h ?_ ?_
  · exact fun _ => growing_record h fun r hr => (h.recording r hr).1.read l
  · intro x hopen _ _ _
    obtain ⟨r, hr⟩ := Option.isSome_iff_exists.1 hopen
    have hgrown := (h.recording r hr).1
    rcases guardField_cases hr l with ⟨he, hcover⟩ | ⟨v, gs, rfl, hp, he⟩
    · rw [he]
      refine Ends.bind ((growing_record hcapture fun r' hr' => ?_).imp (fun _ _ hf => hf)
        fun _ _ hf => hf)
      obtain rfl := Option.some.inj (hr.symm.trans hr')
      exact hgrown.folded hcover
    · -- between the two operations of a first read, its guard is not recorded yet
      rw [he]
      have hr' := Mode.recording?_modifyRecording (fun r => { r with guards := gs }) f.mode
      rw [hr] at hr'
      refine Ends.bind ((recorded_or_cleared hr' _).imp ?_ fun _ _ hc => hc.growing hcapture)
      rintro - f' (⟨rfl, -⟩ | hc)
      · refine growing_record hcapture fun r'' hr'' => ?_
        rw [recording?_recorded hr'] at hr''
        obtain rfl := Option.some.inj hr''
        rw [recorded, Mode.tracesLoop_modifyRecording, Mode.tracesLoop_modifyRecording]
        exact hgrown.guarded hp
      · refine growing_record (hc.growing hcapture) fun r'' hr'' => ?_
        rw [hc.mode] at hr''
        cases hr''

theorem growing_branch (h : f.Growing) (cond : Bool) :
    Ends (fun _ => Growing) (fun _ => Growing) (branch cond f) := by
  obtain ⟨t, m, e⟩ := f
  have ht : t.Growing m := h
  refine ends_branch h (fun r hr => ?_) (fun _ _ _ _ => Cache.Growing.interpreting h) ?_ ?_
  · -- the branch is recorded under its number
    refine growing_record (f := ⟨t, _, e⟩) ht fun r' hr' => ?_
    rw [Mode.recording?_modifyRecording, hr] at hr'
    obtain rfl := Option.some.inj hr'
    rw [Mode.tracesLoop_modifyRecording]
    exact (h.recording r hr).1.branch cond
  · exact fun j expected i _ => Cache.Growing.of_recording? h rfl
  · rintro j expected i rfl
    exact Tracer.persists_growing.guardFailed h i

/-! ### Writing -/

structure Stored (f f' : Frame) : Prop where
  growing : ∀ m, f.tracer.Growing m → f'.tracer.Growing m
  mode : f'.mode = f.mode ∨ f'.mode.recording? = none

theorem Stored.keeps (h : f.Stored f') (hf : f.Growing) : f'.Growing := by
  have ht := h.growing f.mode hf
  rcases h.mode with hm | hm
  · unfold Growing
    rw [hm]
    exact ht
  · exact Cache.Growing.of_recording? ht hm

theorem stored_afterRevocation (i : Invalidation) (f : Frame) :
    Ends (fun _ f' => f.Stored f') (fun _ f' => f.Stored f') (afterRevocation i f) := by
  have hgrowing : ∀ m, f.tracer.Growing m → (f.revoked i).tracer.Growing m :=
    fun m h => Tracer.growing_retireDependents h i
  have habort : ∀ f', Cleared (f.revoked i) f' → f.Stored f' :=
    fun f' hc => ⟨fun m h => (hgrowing m h).sameCode hc.code, Or.inr hc.mode⟩
  refine ends_afterRevocation (fun _ => ⟨hgrowing, ?_⟩) fun _ =>
    (cleared_abortTrace .forcedWrite _).imp (fun _ f' => habort f') fun _ f' => habort f'
  unfold revoked modeWithout
  split_ifs
  · exact Or.inr rfl
  · exact Or.inl rfl

theorem stored_storeField (l : Location) (value : Int) (f : Frame) :
    Ends (fun _ f' => f.Stored f') (fun _ f' => f.Stored f') (storeField l value f) := by
  refine ends_storeField (fun _ _ => ⟨fun _ h => h, Or.inl rfl⟩)
    (fun t hw => ⟨fun _ h => Tracer.growing_write h hw, Or.inl rfl⟩) fun t i hw => ?_
  have hafter : ∀ f', Stored { f with tracer := t } f' → f.Stored f' :=
    fun f' hf => ⟨fun m h => hf.growing m (Tracer.growing_write h hw), hf.mode⟩
  exact (stored_afterRevocation i _).imp (fun _ f' => hafter f') fun _ f' => hafter f'

/-- A captured location can be written, and that breaks the trace. -/
theorem Poised.breaks_of_covers (h : f.Poised g n) {r : Recording}
    (hr : f.mode.recording? = some r) (hc : r.guards.Covers l) : f.breaks l = true := by
  obtain ⟨v, hv, rfl⟩ := List.mem_map.1 hc
  obtain ⟨x, hx⟩ := Heap.exists_get_of_isQuasi (h.assumes v ⟨r, hr, hv⟩).quasi
  rw [breaks, hr, Option.any_some, decide_eq_true hc, hx]
  rfl

/-- A write to a location that the trace has folded is recorded, but the trace does not go on. -/
theorem growing_setField (hp : f.Poised g n) (h : f.Growing) (l : Location) (value : Int) :
    Ends (fun _ => Growing) (fun _ => Growing) (setField l value f) := by
  have hstore : ∀ f₁ : Frame, f₁.Growing →
      Ends (fun _ => Growing) (fun _ => Growing) (storeField l value f₁) :=
    fun f₁ h₁ => (stored_storeField l value f₁).imp (fun _ _ hs => hs.keeps h₁)
      fun _ _ hs => hs.keeps h₁
  rw [setField_eq]
  apply Ends.bind
  by_cases hcover : ∃ r, f.mode.recording? = some r ∧ r.guards.Covers l
  · obtain ⟨r, hr, hcover⟩ := hcover
    refine (recorded_or_cleared hr _).imp ?_ fun _ _ hc => hc.growing h
    rintro - f₁ (⟨rfl, -⟩ | hc)
    · have hrec : (f.recorded (.setField l)).Poised g n :=
        hp.modifyRecording (fun _ => rfl) fun _ => rfl
      have hbreaks := hrec.breaks_of_covers (recording?_recorded hr _) hcover
      have hgone : ∀ f', (f.recorded (.setField l)).Wrote g n
            ((f.recorded (.setField l)).breaks l) f' ∧ (f.recorded (.setField l)).Stored f' →
          f'.Growing := by
        rintro f' ⟨hw, hs⟩
        obtain ⟨_, -, hgave⟩ := hw.gaveUp hbreaks
        refine Cache.Growing.of_recording? (hs.growing f.mode h) ?_
        rw [hgave.mode]
        rfl
      exact ((wrote_storeField hrec l value).and (stored_storeField l value _)).imp
        (fun _ f' => hgone f') fun _ f' => hgone f'
    · exact hstore f₁ (hc.growing h)
  · refine (growing_record h fun r hr => ?_).imp (fun _ f₁ => hstore f₁) fun _ _ hf => hf
    exact (h.recording r hr).1.write fun hc => hcover ⟨r, hr, hc⟩

end Frame

/-! ## Runs and clients -/

theorem invariant_growing (g : Settings) :
    Frame.Invariant (fun n f => f.Poised g n ∧ f.Growing) forces where
  stop := fun h e => ⟨(invariant_poised g).stop h.1 e, Cache.Growing.interpreting h.2⟩
  checkKey := fun k h =>
    ((invariant_poised g).checkKey k h.1).and (Tracer.persists_growing.checkKey _ k h.2)
  mergePoint := fun k h hk =>
    ((invariant_poised g).mergePoint k h.1 hk).and (Tracer.persists_growing.mergePoint _ k h.2)
  leaveLoop := fun h =>
    ((invariant_poised g).leaveLoop h.1).and (Tracer.persists_growing.leaveLoop _ h.2)
  getField := fun l h => ((invariant_poised g).getField l h.1).and (Frame.growing_getField h.2 l)
  setField := fun l value h =>
    ((invariant_poised g).setField l value h.1).and (Frame.growing_setField h.1 h.2 l value)
  branch := fun cond h => ((invariant_poised g).branch cond h.1).and (Frame.growing_branch h.2 cond)

theorem Call.growing_perform {c : Call} {t : Tracer} (hc : c.Outside)
    (h : t.Growing .interpreting) : (c.perform t).Growing .interpreting :=
  c.keeps_outside hc h (Tracer.growing_write h) (fun i h' => Tracer.growing_retireDependents h' i)
    (fun _ => h) fun _ => h

theorem Tracer.Growing.new {settings : Settings} (hv : settings.validate = .ok ()) :
    Tracer.Growing { settings := settings } .interpreting where
  room := Nat.pos_of_ne_zero (Settings.validate_eq_ok_iff.1 hv).2.2
  sound := Cache.sound_empty 0
  wellFormed := fun h a ha => by cases ha
  recording := fun r hr => by cases hr

/-- With valid settings, at every moment and head frame, and between the calls, all is well formed
or on the way to it. -/
theorem growing_throughout (settings : Settings) (hv : settings.validate = .ok ())
    (cs : List Call) :
    let new : Tracer := { settings := settings }
    (∀ f ∈ moments cs new, ∃ n, f.Poised settings n ∧ f.Growing) ∧
      (∀ x ∈ heads cs new, ∃ n, x.1.Poised settings n ∧ x.1.Growing) ∧
      ∀ past, past <+: cs →
        (past.foldl (fun t c => c.perform t) new).Ready settings
            ((writes past new).countP forces) ∧
          (past.foldl (fun t c => c.perform t) new).Growing .interpreting := by
  intro new
  have hcalls : ∀ c ∈ cs, c.Outside → ∀ {n t},
      Frame.AtRest (fun n f => f.Poised settings n ∧ f.Growing) n t →
        Frame.AtRest (fun n f => f.Poised settings n ∧ f.Growing) n (c.perform t) :=
    fun c _ hc n t h e => ⟨(c.ready_perform hc (h e).1.toReady).poised e,
      c.growing_perform hc (h e).2⟩
  have hnew : Frame.AtRest (fun n f => f.Poised settings n ∧ f.Growing) 0 new :=
    fun e => ⟨(Tracer.Ready.new settings).poised e, Tracer.Growing.new hv⟩
  obtain ⟨hms, hhs, -, hpasts⟩ := (invariant_growing settings).calls hcalls hnew
  refine ⟨hms, fun x hx => (hhs x hx).1, fun past hpast => ?_⟩
  have hrest := hpasts past hpast ⟨0, "", [], []⟩
  rw [Nat.zero_add] at hrest
  exact ⟨hrest.1.toReady, hrest.2⟩

/-- With valid settings, in all runs of all programs and whatever their client does in between, live
loops and bridges are well formed. So is what closing the open trace installs, at any loop head. -/
theorem live_code_wellFormed (settings : Settings) (hv : settings.validate = .ok ())
    (cs : List Call) :
    let new : Tracer := { settings := settings }
    (∀ f ∈ moments cs new, f.tracer.cache.WellFormed settings.traceLimit) ∧
      (∀ x ∈ heads cs new, x.1.tracer.cache.WellFormed settings.traceLimit ∧
        ∀ r, x.1.mode.recording? = some r → Trace.WellFormed settings.traceLimit
          x.1.mode.tracesLoop r.guards (r.ops ++ [.jump])) ∧
      ∀ past, past <+: cs →
        (past.foldl (fun t c => c.perform t) new).cache.WellFormed settings.traceLimit := by
  intro new
  obtain ⟨hms, hhs, hpasts⟩ := growing_throughout settings hv cs
  have hlimit : ∀ {t : Tracer} {m : Mode} {n : Nat}, t.Ready settings n → t.Growing m →
      t.cache.Growing settings.traceLimit m := by
    rintro t m n hr h
    rw [← hr.settings]
    exact h
  refine ⟨fun f hf => ?_, fun x hx => ?_, fun past hpast => ?_⟩
  · obtain ⟨n, hp, h⟩ := hms f hf
    exact (hlimit hp.toReady h).wellFormed
  · obtain ⟨n, hp, h⟩ := hhs x hx
    exact ⟨(hlimit hp.toReady h).wellFormed, fun r hr => (hlimit hp.toReady h).closed hr⟩
  · obtain ⟨hr, h⟩ := hpasts past hpast
    exact (hlimit hr h).wellFormed

/-- The loop reads its weight, folded and guarded, and branches once. -/
theorem live_code_wellFormed_weightedSum :
    let t : Tracer :=
      weightedSum.foldl (fun t c => c.perform t) { settings := { threshold := 1 } }
    let l : Location := ⟨⟨0⟩, "scale"⟩
    let ops : List Op :=
      [.label, .foldedField l, .guardVersion l, .guardBranch 0 false, .jump]
    ∃ a, t.cache.get? ⟨1⟩ = some a ∧ a.operations = ops ∧
      Trace.WellFormed 6000 true a.guards a.operations := by
  intro t l ops
  have hops : (t.cache.get? ⟨1⟩).map (fun a => (decide a.IsLoop, a.operations)) =
      some (true, ops) := by
    decide +kernel
  obtain ⟨a, ha, hao⟩ := Option.map_eq_some_iff.1 hops
  obtain ⟨hloop, hao⟩ := Prod.mk.inj hao
  have hformed := (live_code_wellFormed { threshold := 1 } rfl weightedSum).2.2 weightedSum
    (List.prefix_refl _) ⟨1⟩ a ha
  rw [hloop] at hformed
  exact ⟨a, ha, hao, hformed⟩

end HotLoop
