import HotLoop.Proofs.Moments
import HotLoop.Proofs.Persistence

/-!
# Compiled code runs on what its trace saw

While compiled code runs, all that it guards is current, and a current version vouches for the value
that its location had when it was captured. `Kept` is the invariant behind this: at each moment, the
versions that open traces have guarded so far were issued for quasi-immutable locations, they vouch
for the values seen then, the guards of live artifacts are among them, and a mode that runs an
artifact is backed by the code cache.
-/

namespace HotLoop

open Code Journal Lifecycle Trace Versions

namespace Mode

def Guards (m : Mode) (v : Version) : Prop := ∃ r, m.recording? = some r ∧ v ∈ r.guards.captured

/-- What a mode that runs an artifact promises: it is live with all its guards current, and so is
the loop that a bridge hangs off. -/
def Backed (c : Cache) : Mode → Prop
  | .running h _ _ => ∃ a, c.get? h = some a ∧ a.kind = .loop ∧
      ∀ v ∈ a.guards.captured, c.versions.IsCurrent v
  | .runningBridge b => ∃ a p i pa, c.get? b = some a ∧ a.kind = .bridge p i ∧
      (∀ v ∈ a.guards.captured, c.versions.IsCurrent v) ∧ c.get? p = some pa ∧ pa.kind = .loop ∧
      pa.bridges.find? i = some b ∧ ∀ v ∈ pa.guards.captured, c.versions.IsCurrent v
  | _ => True

structure Within (m m' : Mode) : Prop where
  guards : ∀ v, m'.Guards v → m.Guards v
  backed : ∀ c, m.Backed c → m'.Backed c

namespace Within

variable {m m' m'' : Mode}

theorem refl (m : Mode) : m.Within m := ⟨fun _ h => h, fun _ h => h⟩

theorem trans (h : m.Within m') (h' : m'.Within m'') : m.Within m'' :=
  ⟨fun v hv => h.guards v (h'.guards v hv), fun c hc => h'.backed c (h.backed c hc)⟩

end Within

theorem not_guards_of_recording? {m : Mode} (hm : m.recording? = none) (v : Version) :
    ¬ m.Guards v := by
  rintro ⟨r, hr, -⟩
  rw [hm] at hr
  cases hr

theorem not_guards_of_empty {m : Mode} {r : Recording} (hr : m.recording? = some r)
    (hg : r.guards = ∅) (v : Version) : ¬ m.Guards v := by
  rintro ⟨r', hr', hv⟩
  obtain rfl := Option.some.inj (hr.symm.trans hr')
  rw [hg] at hv
  exact List.not_mem_nil hv

theorem backed_of_artifact? {m : Mode} (hm : m.artifact? = none) (c : Cache) : m.Backed c := by
  cases m with
  | running h expected n => cases hm
  | runningBridge b => cases hm
  | _ => trivial

theorem Backed.of_current {c c' : Cache} {m : Mode} (hb : m.Backed c) (hc : c.Sound)
    (hl : ∀ j a, c.get? j = some a → c'.get? j = some a)
    (hv : ∀ v, c.versions.Issued v → c.versions.IsCurrent v → c'.versions.IsCurrent v) :
    m.Backed c' := by
  cases m with
  | running h expected n =>
      obtain ⟨a, ha, hk, hg⟩ := hb
      exact ⟨a, hl h a ha, hk, fun v hm => hv v (hc.issued h a ha v hm) (hg v hm)⟩
  | runningBridge b =>
      obtain ⟨a, p, i, pa, ha, hk, hg, hpa, hpk, hpb, hpg⟩ := hb
      exact ⟨a, p, i, pa, hl b a ha, hk, fun v hm => hv v (hc.issued b a ha v hm) (hg v hm),
        hl p pa hpa, hpk, hpb, fun v hm => hv v (hc.issued p pa hpa v hm) (hpg v hm)⟩
  | _ => trivial

/-- What a mode needs stays behind a write, if the write did not retire what the mode runs. -/
theorem Backed.of_revoked {c : Cache} {m : Mode} (hb : m.Backed c) (hc : c.Sound) {l : Location}
    {t : Versions} {i : Invalidation} (hi : c.versions.invalidate? l = some (t, i))
    (hm : ∀ h, m.artifact? = some h →
      h ∉ (Cache.retireAll { c with versions := t } i.dependents).2) :
    m.Backed (Cache.retireAll { c with versions := t } i.dependents).1 := by
  have hc₁ : Cache.Sound { c with versions := t } := hc.invalidate hi
  have hw := Cache.without_retireAll i.dependents hc₁
  have hleft : ∀ j a, c.get? j = some a → (∀ v ∈ a.guards.captured, c.versions.IsCurrent v) →
      j ∉ (Cache.retireAll { c with versions := t } i.dependents).2 →
      ∃ a', (Cache.retireAll { c with versions := t } i.dependents).1.get? j = some a' ∧
        a.Loses a' (Cache.retireAll { c with versions := t } i.dependents).2 ∧
        ∀ v ∈ a'.guards.captured,
          (Cache.retireAll { c with versions := t } i.dependents).1.versions.IsCurrent v := by
    intro j a ha hg hj
    obtain ⟨a', ha', hl⟩ := hw.kept ha hj
    refine ⟨a', ha', hl, hc.current_of_revoked hi ha' fun b hb => ?_⟩
    rw [ha] at hb
    exact Option.some.inj hb ▸ hg
  cases m with
  | running h expected n =>
      obtain ⟨a, ha, hk, hg⟩ := hb
      obtain ⟨a', ha', hl, hg'⟩ := hleft h a ha hg (hm h rfl)
      exact ⟨a', ha', hl.kind.trans hk, hg'⟩
  | runningBridge b =>
      obtain ⟨a, p, k, pa, ha, hk, hg, hpa, hpk, hpb, hpg⟩ := hb
      have hbm := hm b rfl
      have hpm : p ∉ (Cache.retireAll { c with versions := t } i.dependents).2 :=
        fun hp => hbm (Cache.bridge_mem_retireAll hc₁ hp hpa hpb)
      obtain ⟨a', ha', hl, hg'⟩ := hleft b a ha hg hbm
      obtain ⟨pa', hpa', hpl, hpg'⟩ := hleft p pa hpa hpg hpm
      exact ⟨a', p, k, pa', ha', hl.kind.trans hk, hg', hpa', hpl.kind.trans hpk,
        (hpl.bridges k b).2 ⟨hpb, hbm⟩, hpg'⟩
  | _ => trivial

theorem within_interpreting (m : Mode) : m.Within .interpreting :=
  ⟨fun v hv => absurd hv (not_guards_of_recording? rfl v), fun _ _ => trivial⟩

theorem recording?_modifyRecording (g : Recording → Recording) (m : Mode) :
    (m.modifyRecording g).recording? = m.recording?.map g := by
  cases m <;> rfl

theorem artifact?_modifyRecording (g : Recording → Recording) (m : Mode) :
    (m.modifyRecording g).artifact? = m.artifact? := by
  cases m <;> rfl

theorem artifact?_of_recording? {m : Mode} {r : Recording} (hr : m.recording? = some r) :
    m.artifact? = none := by
  cases m with
  | running h expected n => cases hr
  | runningBridge b => cases hr
  | _ => rfl

theorem within_modifyRecording {m : Mode} {r : Recording} (hr : m.recording? = some r)
    {g : Recording → Recording} (hg : (g r).guards = r.guards) :
    m.Within (m.modifyRecording g) := by
  refine ⟨fun v hv => ?_, fun c _ => backed_of_artifact? ?_ c⟩
  · obtain ⟨r', hr', hv⟩ := hv
    rw [recording?_modifyRecording, hr] at hr'
    obtain rfl := Option.some.inj hr'
    exact ⟨r, hr, hg ▸ hv⟩
  · rw [artifact?_modifyRecording]
    exact artifact?_of_recording? hr

end Mode

/-! ## What versions vouch for -/

/-- A guarded version: if it is current, its location has the value that it had at every moment at
which an open trace guarded it. -/
structure Assured (past : List Frame) (h : Heap) (t : Versions) (v : Version) : Prop where
  issued : t.Issued v
  quasi : h.isQuasi v.location = .ok true
  value : ∃ x, h.get v.location = .ok x ∧ (t.IsCurrent v →
    ∀ f ∈ past, f.mode.Guards v → f.tracer.heap.get v.location = .ok x)

structure Evolves (h h' : Heap) (t t' : Versions) : Prop where
  issued : ∀ v, t.Issued v → t'.Issued v
  quasi : ∀ l, h.isQuasi l = .ok true → h'.isQuasi l = .ok true
  readable : ∀ l x, h.get l = .ok x → ∃ y, h'.get l = .ok y
  current : ∀ v, t.Issued v → h.isQuasi v.location = .ok true → t'.IsCurrent v →
    t.IsCurrent v ∧ ∀ x, h.get v.location = .ok x → h'.get v.location = .ok x

theorem Assured.evolve {past : List Frame} {h h' : Heap} {t t' : Versions} {v : Version}
    (hv : Assured past h t v) (he : Evolves h h' t t') : Assured past h' t' v := by
  obtain ⟨x, hx, hpast⟩ := hv.value
  refine ⟨he.issued v hv.issued, he.quasi _ hv.quasi, ?_⟩
  by_cases hc : t'.IsCurrent v
  · obtain ⟨hcur, hval⟩ := he.current v hv.issued hv.quasi hc
    exact ⟨x, hval x hx, fun _ => hpast hcur⟩
  · obtain ⟨y, hy⟩ := he.readable _ x hx
    exact ⟨y, hy, fun hcur => absurd hcur hc⟩

/-- A moment at which the heap is as it is now adds nothing to what is assured. -/
theorem Assured.append {past : List Frame} {f : Frame} {t : Versions} {v : Version}
    (hv : Assured past f.tracer.heap t v) : Assured (past ++ [f]) f.tracer.heap t v := by
  obtain ⟨x, hx, hpast⟩ := hv.value
  refine ⟨hv.issued, hv.quasi, x, hx, fun hc e he hg => ?_⟩
  rcases List.mem_append.1 he with he | he
  · exact hpast hc e he hg
  · rw [List.mem_singleton.1 he]
    exact hx

namespace Evolves

variable {h h' : Heap} {t t' : Versions}

theorem trans {h'' : Heap} {t'' : Versions} (he : Evolves h h' t t') (he' : Evolves h' h'' t' t'') :
    Evolves h h'' t t'' := by
  refine ⟨fun v hv => he'.issued v (he.issued v hv), fun l hq => he'.quasi l (he.quasi l hq),
    fun l x hx => ?_, fun v hv hq hc => ?_⟩
  · obtain ⟨y, hy⟩ := he.readable l x hx
    exact he'.readable l y hy
  · obtain ⟨hc', hx'⟩ := he'.current v (he.issued v hv) (he.quasi _ hq) hc
    obtain ⟨hc, hx⟩ := he.current v hv hq hc'
    exact ⟨hc, fun x h => hx' x (hx x h)⟩

theorem of_sameVersions (h : Heap) (ht : SameVersions t t') : Evolves h h t t' :=
  ⟨fun v hv => (ht.issued_iff v).2 hv, fun _ hq => hq, fun _ x hx => ⟨x, hx⟩,
    fun v _ _ hc => ⟨(ht.isCurrent_iff v).1 hc, fun _ hx => hx⟩⟩

theorem read (h : Heap) (t : Versions) (l : Location) : Evolves h h t (t.read l).1 :=
  ⟨fun _ hv => hv.read l, fun _ hq => hq, fun _ x hx => ⟨x, hx⟩,
    fun _ hv _ hc => ⟨(hv.isCurrent_read_iff l).1 hc, fun _ hx => hx⟩⟩

theorem alloc {c : ObjectClass} {values : List (String × Int)} {id : ObjectId}
    (ha : h.alloc c values = .ok (h', id)) (t : Versions) : Evolves h h' t t :=
  ⟨fun _ hv => hv, fun _ hq => Heap.isQuasi_alloc ha hq, fun _ x hx => ⟨x, Heap.get_alloc ha hx⟩,
    fun _ _ _ hc => ⟨hc, fun _ hx => Heap.get_alloc ha hx⟩⟩

/-- A write revokes the version of its location, if there is one to vouch for the old value. -/
theorem write {l : Location} {value : Int} {i : Option Invalidation} (ht : t.Sound)
    (hs : h.set t l value = .ok (h', t', i)) : Evolves h h' t t' := by
  have hget := Heap.get_set hs
  have hkeep : ∀ m x, m ≠ l → h.get m = .ok x → h'.get m = .ok x := by
    intro m x hm hx
    rw [hget, if_neg hm]
    exact hx
  have hread : ∀ m x, h.get m = .ok x → ∃ y, h'.get m = .ok y := by
    intro m x hx
    by_cases hm : m = l
    · exact ⟨value, by rw [hget, if_pos hm]⟩
    · exact ⟨x, hkeep m x hm hx⟩
  have hquasi : ∀ m, h.isQuasi m = .ok true → h'.isQuasi m = .ok true := by
    intro m hm
    rw [Heap.isQuasi_set hs]
    exact hm
  refine ⟨fun v hv => Heap.issued_set ht hs hv, hquasi, hread, fun v hv hq hc => ?_⟩
  obtain ⟨hcur, hne⟩ := (Heap.isCurrent_set_iff ht hs hv hq).1 hc
  exact ⟨hcur, fun x hx => hkeep _ x hne hx⟩

end Evolves

/-! ## The invariant -/

structure Kept (past : List Frame) (h : Heap) (c : Cache) (m : Mode) : Prop where
  sound : c.Sound
  assured : ∀ f ∈ past, ∀ v, f.mode.Guards v → Assured past h c.versions v
  recorded : ∀ v, m.Guards v → Assured past h c.versions v
  shown : ∀ j a, c.get? j = some a → ∀ v ∈ a.guards.captured, ∃ f ∈ past, f.mode.Guards v
  backed : m.Backed c

namespace Kept

variable {past : List Frame} {h h' : Heap} {c c' : Cache} {m m' : Mode}

theorem within (hk : Kept past h c m) (hm : m.Within m') : Kept past h c m' :=
  ⟨hk.sound, hk.assured, fun v hv => hk.recorded v (hm.guards v hv), hk.shown,
    hm.backed c hk.backed⟩

theorem evolve (hk : Kept past h c m) (he : Evolves h h' c.versions c'.versions) (hc : c'.Sound)
    (hl : ∀ j a', c'.get? j = some a' → ∃ a, c.get? j = some a ∧ a'.guards = a.guards)
    (hm : m.Within m') (hb : m'.Backed c') : Kept past h' c' m' := by
  refine ⟨hc, fun f hf v hv => (hk.assured f hf v hv).evolve he,
    fun v hv => (hk.recorded v (hm.guards v hv)).evolve he, fun j a' ha' => ?_, hb⟩
  obtain ⟨a, ha, hg⟩ := hl j a' ha'
  rw [hg]
  exact hk.shown j a ha

theorem sameCode {t t' : Tracer} (hk : Kept past t.heap t.cache m) (ht : t.SameCode t') :
    Kept past t'.heap t'.cache m := by
  rw [ht.heap, ht.cache]
  exact hk

theorem enter (hk : Kept past h c m) (j : Handle) : Kept past h (c.enter j).1 .interpreting :=
  hk.evolve (.of_sameVersions h (Cache.sameVersions_enter hk.sound j)) (hk.sound.enter j)
    (fun _ _ ha' => Cache.live_enter hk.sound ha') (Mode.within_interpreting m) trivial

theorem mode (hk : Kept past h c m) (hg : ∀ v, ¬ m'.Guards v) (hb : m'.Backed c) :
    Kept past h c m' :=
  ⟨hk.sound, hk.assured, fun v hv => absurd hv (hg v), hk.shown, hb⟩

/-- Installing an artifact whose guards open traces have shown. -/
theorem install (hk : Kept past h c m) {g : Guards}
    (hg : ∀ v ∈ g.captured, ∃ f ∈ past, f.mode.Guards v)
    (hv : SameVersions c.versions c'.versions) (hc : c'.Sound)
    (hl : ∀ j a', c'.get? j = some a' →
      a'.guards = g ∨ ∃ a, c.get? j = some a ∧ a'.guards = a.guards) :
    Kept past h c' .interpreting := by
  refine ⟨hc, fun f hf v hfv => (hk.assured f hf v hfv).evolve (.of_sameVersions h hv),
    fun v hm => absurd hm (Mode.not_guards_of_recording? rfl v), fun j a' ha' v hm => ?_, trivial⟩
  rcases hl j a' ha' with he | ⟨a, ha, he⟩
  · exact hg v (he ▸ hm)
  · exact hk.shown j a ha v (he ▸ hm)

theorem append (f : Frame) (hk : Kept past f.tracer.heap f.tracer.cache f.mode) :
    Kept (past ++ [f]) f.tracer.heap f.tracer.cache f.mode := by
  refine ⟨hk.sound, fun e he v hv => ?_, fun v hv => (hk.recorded v hv).append,
    fun j a ha v hv => ?_, hk.backed⟩
  · rcases List.mem_append.1 he with he | he
    · exact (hk.assured e he v hv).append
    · rw [List.mem_singleton.1 he] at hv
      exact (hk.recorded v hv).append
  · obtain ⟨e, he, hg⟩ := hk.shown j a ha v hv
    exact ⟨e, List.mem_append_left _ he, hg⟩

end Kept

/-! ## Entering compiled code -/

namespace Tracer

variable {past : List Frame} {t : Tracer} {m : Mode}

/-- A loop that was entered backs the mode that runs it. -/
theorem backed_running {c : Cache} {h : Handle} {a : Artifact} (he : (c.enter h).2 = .entered)
    (ha : c.get? h = some a) (hk : a.kind = .loop) (expected : List Bool) (n : Nat) :
    Mode.Backed (c.enter h).1 (.running h expected n) := by
  obtain ⟨b, hb, hg, hc⟩ := Cache.of_enter_entered he
  obtain rfl := Option.some.inj (ha.symm.trans hb)
  obtain ⟨k, hk'⟩ := Cache.get?_entered_of_some ha h
  rw [hc]
  exact ⟨_, hk', hk, hg⟩

theorem backed_runningBridge {c : Cache} (hc : c.Sound) {h b : Handle} {a : Artifact} {i : Nat}
    (he : (c.enter b).2 = .entered) (ha : c.get? h = some a)
    (hg : ∀ v ∈ a.guards.captured, c.versions.IsCurrent v) (hb : a.bridges.find? i = some b) :
    Mode.Backed (c.enter b).1 (.runningBridge b) := by
  obtain ⟨ba, hba, hbg, hc'⟩ := Cache.of_enter_entered he
  obtain ⟨hk, ba', hba', hbk, -⟩ := hc.bridge h a i b ha hb
  obtain rfl := Option.some.inj (hba.symm.trans hba')
  obtain ⟨k, hbk'⟩ := Cache.get?_entered_of_some hba b
  obtain ⟨n, ha'⟩ := Cache.get?_entered_of_some ha b
  rw [hc']
  exact ⟨_, h, i, _, hbk', hbk, hbg, ha', hk, hb, hg⟩

/-- A write that revokes a version, together with the retirement of what depended on it. -/
theorem kept_retired {t' : Tracer} {m' : Mode} {l : Location} {value : Int} {i : Invalidation}
    (hk : Kept past t.heap t.cache m) (hw : t.write l value = .ok (t', some i))
    (hm : m.Within m') (hb : ∀ c, ((∀ h, m.artifact? = some h → h ∉ (t'.retireDependents i).2) →
      m.Backed c) → m'.Backed c) :
    Kept past ((t'.retireDependents i).1.forgetAll (t'.retireDependents i).2).heap
      ((t'.retireDependents i).1.forgetAll (t'.retireDependents i).2).cache m' := by
  obtain ⟨versions, hs, hcache, -⟩ := write_eq_ok hw
  rcases Heap.revoke_set hs with ⟨i', hii, -, hi⟩ | ⟨hn, -⟩
  · obtain rfl := Option.some.inj hii
    have hsame := sameCode_forgetAll (t'.retireDependents i).1 (t'.retireDependents i).2
    have hret : t'.retireDependents i = ({ t'.note (t'.cache.narrateRetireAll i.dependents) with
        cache := (t'.cache.retireAll i.dependents).1 }, (t'.cache.retireAll i.dependents).2) := rfl
    have hc₁ : Cache.Sound { t.cache with versions := versions } := hk.sound.invalidate hi
    have hwo := Cache.without_retireAll i.dependents hc₁
    rw [hret, hcache] at hb
    rw [hsame.heap, hsame.cache, hret, hcache]
    refine hk.evolve ((Evolves.write hk.sound.versions hs).trans (.of_sameVersions _ hwo.versions))
      (hwo.sound hc₁) (fun j a' ha' => ?_) hm (hb _ fun hm => hk.backed.of_revoked hk.sound hi hm)
    obtain ⟨a, ha, hl⟩ := hwo.live j a' ha'
    exact ⟨a, ha, hl.guards⟩
  · cases hn

/-- A write, without the retirement of what depended on it. -/
theorem kept_write {t' : Tracer} {l : Location} {value : Int} {i : Option Invalidation}
    (hk : Kept past t.heap t.cache m) (hw : t.write l value = .ok (t', i)) :
    Kept past t'.heap t'.cache .interpreting := by
  obtain ⟨versions, hs, hcache, -⟩ := write_eq_ok hw
  have hc := sound_of_write hk.sound hw
  rw [hcache] at hc ⊢
  exact hk.evolve (Evolves.write hk.sound.versions hs) hc (fun _ a ha => ⟨a, ha, rfl⟩)
    (Mode.within_interpreting m) trivial

def Shown (past : List Frame) (m : Mode) : Prop := ∀ v, m.Guards v → ∃ f ∈ past, f.mode.Guards v

theorem shown_of_not_guards (hg : ∀ v, ¬ m.Guards v) : Shown past m := fun v hv => absurd hv (hg v)

theorem shown_of_recording? (hm : m.recording? = none) : Shown past m :=
  shown_of_not_guards (Mode.not_guards_of_recording? hm)

/-- Loop heads install only what open traces have shown. -/
theorem persists_kept (past : List Frame) :
    Persists fun t m => Kept past t.heap t.cache m ∧ Shown past m where
  sound := fun h => h.1.sound
  sameCode := fun h ht => ⟨h.1.sameCode ht, h.2⟩
  stop := fun h => ⟨h.1.within (Mode.within_interpreting _), shown_of_recording? rfl⟩
  enter := fun j h => ⟨h.1.enter j, shown_of_recording? rfl⟩
  traceLoop := fun k h =>
    have hg := Mode.not_guards_of_empty (m := .tracingLoop { key := k, ops := [.label] }) rfl rfl
    ⟨h.1.mode hg trivial, shown_of_not_guards hg⟩
  run := fun expected h hl he => by
    obtain ⟨a, ha, hk, -⟩ := (h.1.sound.loop_iff _ _).1 hl
    exact ⟨(h.1.enter _).mode (Mode.not_guards_of_recording? rfl) (backed_running he ha hk _ _),
      shown_of_recording? rfl⟩
  addLoop := fun s h =>
    ⟨h.1.install (fun v hv => h.2 v ⟨_, rfl, hv⟩) (Cache.sameVersions_addLoop h.1.sound _ _ _)
      (h.1.sound.addLoop _ _ _) fun _ _ => Cache.live_addLoop h.1.sound, shown_of_recording? rfl⟩
  addBridge := fun h ha hl =>
    ⟨h.1.install (fun v hv => h.2 v ⟨_, rfl, hv⟩) (Cache.sameVersions_addBridge _ _ _ _ _ _)
      (h.1.sound.addBridge ha hl _ _ _) fun _ _ => Cache.live_addBridge, shown_of_recording? rfl⟩
  traceBridge := fun {t m j i} k h _ =>
    have hg := Mode.not_guards_of_empty (m := .tracingBridge j i { key := k, ops := [] }) rfl rfl
    ⟨h.1.mode hg trivial, shown_of_not_guards hg⟩
  runBridge := fun h hb he => by
    obtain ⟨a, ha, -, hg⟩ := h.1.backed
    obtain ⟨a', ha', hab⟩ := Cache.bridge?_eq_some hb
    obtain rfl := Option.some.inj (ha.symm.trans ha')
    exact ⟨(h.1.enter _).mode (Mode.not_guards_of_recording? rfl)
      (backed_runningBridge h.1.sound he ha hg hab), shown_of_recording? rfl⟩

end Tracer

/-! ## The operations of a frame -/

namespace Frame

def Within (f f' : Frame) : Prop := f.tracer.SameCode f'.tracer ∧ f.mode.Within f'.mode

def KeptAfter (past : List Frame) (f : Frame) : Prop :=
  Kept past f.tracer.heap f.tracer.cache f.mode

variable {past : List Frame}

theorem Within.refl (f : Frame) : f.Within f := ⟨Tracer.SameCode.refl _, Mode.Within.refl _⟩

theorem Within.trans {f f' f'' : Frame} (h : f.Within f') (h' : f'.Within f'') : f.Within f'' :=
  ⟨h.1.trans h'.1, h.2.trans h'.2⟩

theorem KeptAfter.within {f f' : Frame} (hk : f.KeptAfter past) (h : f.Within f') :
    f'.KeptAfter past := by
  obtain ⟨hs, hm⟩ := h
  unfold KeptAfter at hk ⊢
  rw [hs.heap, hs.cache]
  exact hk.within hm

theorem within_abortTrace (cause : Abort) (f : Frame) :
    Ends (fun _ f' => f.Within f') (fun _ f' => f.Within f') (abortTrace cause f) := by
  refine ends_abortTrace (fun _ => Within.refl f) fun r _ => ?_
  have hn := Tracer.sameCode_note [.traceGivenUp f.entry r.key cause] f.tracer
  exact (Tracer.sameCode_report _ _).imp (fun _ _ h => ⟨hn.trans h, Mode.within_interpreting _⟩)
    fun _ _ h => ⟨hn.trans h, Mode.within_interpreting _⟩

theorem within_record (op : Op) (f : Frame) :
    Ends (fun _ f' => f.Within f') (fun _ f' => f.Within f') (record op f) := by
  have hw : ∀ r, f.mode.recording? = some r → f.Within (f.recorded op) :=
    fun r hr => ⟨Tracer.SameCode.refl _, Mode.within_modifyRecording hr rfl⟩
  refine ends_record (fun _ => Within.refl f) (fun r hr _ => hw r hr) fun r hr _ => ?_
  exact (within_abortTrace .tooLong _).imp (fun _ _ h => (hw r hr).trans h)
    fun _ _ h => (hw r hr).trans h

theorem KeptAfter.capture {f : Frame} (hk : f.KeptAfter past) (l : Location) :
    KeptAfter past { f with tracer := (f.tracer.capture l).1 } := by
  have hb : f.mode.Backed { f.tracer.cache with versions := (f.tracer.cache.versions.read l).1 } :=
    hk.backed.of_current hk.sound (fun _ _ ha => ha) fun _ hv hc => (hv.isCurrent_read_iff l).2 hc
  exact hk.evolve (Evolves.read _ _ l) (hk.sound.read l) (fun _ a ha => ⟨a, ha, rfl⟩)
    (Mode.Within.refl _) hb

theorem captured_push? {g g' : Guards} {v : Version} (h : g.push? v = some g') :
    g'.captured = g.captured ++ [v] := by
  unfold Guards.push? at h
  split_ifs at h
  exact congrArg Guards.captured (Option.some.inj h).symm

/-- A captured version vouches for the value that its location has now. -/
theorem assured_capture {l : Location} {x : Int} {f : Frame} (hk : f.KeptAfter past)
    (hq : f.tracer.heap.isQuasi l = .ok true) (hx : f.tracer.heap.get l = .ok x) :
    Assured past f.tracer.heap (f.tracer.capture l).1.cache.versions (f.tracer.capture l).2 := by
  have hl : (f.tracer.capture l).2.location = l := location_read f.tracer.cache.versions l
  refine ⟨issued_of_isCurrent (isCurrent_read _ l), hl.symm ▸ hq, x, hl.symm ▸ hx, ?_⟩
  intro hc e he hg
  obtain ⟨y, hy, hpast⟩ := ((hk.capture l).assured e he _ hg).value
  have hyx : f.tracer.heap.get (f.tracer.capture l).2.location = .ok x := hl.symm ▸ hx
  obtain rfl := Except.ok.inj (hyx.symm.trans hy)
  exact hpast hc e he hg

theorem kept_guardField {l : Location} {x : Int} {f : Frame} (hk : f.KeptAfter past)
    (hq : f.tracer.heap.isQuasi l = .ok true) (hx : f.tracer.heap.get l = .ok x) :
    (f.guardField l).1.KeptAfter past := by
  have hc := hk.capture l
  have hv := assured_capture hk hq hx
  refine of_guardField hc fun r g hr hp => ?_
  refine ⟨hc.sound, hc.assured, fun u hu => ?_, hc.shown, ?_⟩
  · obtain ⟨r', hr', hu⟩ := hu
    rw [Mode.recording?_modifyRecording, hr] at hr'
    obtain rfl := Option.some.inj hr'
    change u ∈ g.captured at hu
    rw [captured_push? hp] at hu
    rcases List.mem_append.1 hu with hu | hu
    · exact hc.recorded u ⟨r, hr, hu⟩
    · rw [List.mem_singleton.1 hu]
      exact hv
  · refine Mode.backed_of_artifact? ?_ _
    rw [Mode.artifact?_modifyRecording]
    exact Mode.artifact?_of_recording? hr

theorem kept_record (op : Op) {f : Frame} (hk : f.KeptAfter past) :
    Ends (fun _ f' => f'.KeptAfter past) (fun _ f' => f'.KeptAfter past) (record op f) :=
  (within_record op f).imp (fun _ _ h => hk.within h) fun _ _ h => hk.within h

theorem kept_getField (l : Location) {f : Frame} (hk : f.KeptAfter past) :
    Ends (fun _ f' => f'.KeptAfter past) (fun _ f' => f'.KeptAfter past) (getField l f) :=
  ends_getField_of_record hk (fun op _ => kept_record op) fun _ hx hq _ => kept_guardField hk hq hx

theorem within_modeWithout (f : Frame) (retired : List Handle) :
    f.mode.Within (f.modeWithout retired) := by
  unfold modeWithout
  split_ifs
  · exact Mode.within_interpreting _
  · exact Mode.Within.refl _

theorem artifact?_modeWithout {f : Frame} {retired : List Handle} {h : Handle}
    (hm : (f.modeWithout retired).artifact? = some h) :
    f.modeWithout retired = f.mode ∧ h ∉ retired := by
  unfold modeWithout at hm ⊢
  split_ifs at hm ⊢ with ha
  · cases hm
  · rw [hm] at ha
    exact ⟨rfl, by simpa using ha⟩

theorem backed_modeWithout {f : Frame} {c : Cache} {retired : List Handle}
    (hb : (∀ h, f.mode.artifact? = some h → h ∉ retired) → f.mode.Backed c) :
    (f.modeWithout retired).Backed c := by
  cases hm : (f.modeWithout retired).artifact? with
  | none => exact Mode.backed_of_artifact? hm c
  | some h =>
      obtain ⟨he, hr⟩ := artifact?_modeWithout hm
      rw [he] at hm ⊢
      refine hb fun j hj => ?_
      rw [hm] at hj
      exact Option.some.inj hj ▸ hr

theorem kept_storeField (l : Location) (value : Int) {f : Frame} (hk : f.KeptAfter past) :
    Ends (fun _ f' => f'.KeptAfter past) (fun _ f' => f'.KeptAfter past)
      (storeField l value f) := by
  refine ends_storeField (fun _ _ => hk) (fun t hw => ?_) fun t i hw => ?_
  · obtain ⟨versions, hs, hcache, -⟩ := Tracer.write_eq_ok hw
    rcases Heap.revoke_set hs with ⟨i', hii, -⟩ | ⟨-, rfl, -⟩
    · cases hii
    · change Kept past t.heap t.cache f.mode
      rw [hcache]
      exact hk.evolve (Evolves.write hk.sound.versions hs) hk.sound
        (fun _ a ha => ⟨a, ha, rfl⟩) (Mode.Within.refl _) hk.backed
  · have hr : KeptAfter past (revoked i { f with tracer := t }) :=
      Tracer.kept_retired hk hw (within_modeWithout f _) fun _ => backed_modeWithout
    refine ends_afterRevocation (fun _ => hr) fun _ => ?_
    exact (within_abortTrace _ _).imp (fun _ _ h => hr.within h) fun _ _ h => hr.within h

theorem kept_setField (l : Location) (value : Int) {f : Frame} (hk : f.KeptAfter past) :
    Ends (fun _ f' => f'.KeptAfter past) (fun _ f' => f'.KeptAfter past) (setField l value f) := by
  rw [setField_eq]
  exact Ends.bind ((kept_record _ hk).imp (fun _ _ h => kept_storeField l value h) fun _ _ h => h)

theorem kept_branch (cond : Bool) {f : Frame} (hk : f.KeptAfter past) :
    Ends (fun _ f' => f'.KeptAfter past) (fun _ f' => f'.KeptAfter past) (branch cond f) := by
  obtain ⟨t, m, e⟩ := f
  refine ends_branch hk (fun r hr => ?_) ?_ ?_ ?_
  · exact kept_record _ (Kept.within hk (Mode.within_modifyRecording hr rfl))
  · exact fun _ _ _ _ => Kept.within hk (Mode.within_interpreting m)
  · rintro j expected n rfl
    exact Kept.mode hk (Mode.not_guards_of_recording? rfl) hk.backed
  · rintro j expected n rfl
    exact ((Tracer.persists_kept past).guardFailed ⟨hk, Tracer.shown_of_recording? rfl⟩ n).1

end Frame

end HotLoop
