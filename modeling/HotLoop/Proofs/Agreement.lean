import HotLoop.Proofs.Reports

/-!
# The ledger follows the code cache

`Follows` says that the ledger has announced just the loops that are live in the cache, and that no
site is being compiled but the one whose loop is traced. `Orderly` adds what the mode relies on. The
loop head and all operations of a frame keep it, so the reports of a tracer are accepted, and only an
observer can end a run with a fault; but for a bridge that its loop can no longer count.
-/

namespace HotLoop

open Code Journal Lifecycle Trace

/-! ## Ledger and cache -/

structure Follows (c : Cache) (l : Ledger) (attempt : Option Site) : Prop where
  sound : l.Sound
  compiling : ∀ s, l.phase s = .compiling ↔ attempt = some s
  loops : ∀ s h, l.loops.find? h = some s ↔ c.loop? s = some h
  bridges : ∀ h, l.bridges.find? h ≠ none → h.number < c.next

namespace Follows

variable {c c' : Cache} {l : Ledger} {attempt : Option Site} {e : EntryPoint} {k : Key}

theorem of_loops (hf : Follows c l attempt) (hl : ∀ s, c'.loop? s = c.loop? s)
    (hn : c.next ≤ c'.next) : Follows c' l attempt where
  sound := hf.sound
  compiling := hf.compiling
  loops := fun s h => by
    rw [hl]
    exact hf.loops s h
  bridges := fun h hb => (hf.bridges h hb).trans_le hn

theorem without {gone : List Handle} (hf : Follows c l attempt) (hw : c.Without c' gone) :
    Follows c' (gone.foldl Ledger.forget l) attempt := by
  obtain ⟨hs, hb, hj, hp, -⟩ := Ledger.foldl_forget_spec gone hf.sound
  constructor
  case sound => exact hs
  case compiling => exact fun s => (hp s).trans (hf.compiling s)
  case loops =>
    intro s h
    rw [hj, hw.loops, ← hf.loops]
    split_ifs with hm <;> simp [hm]
  case bridges =>
    intro h hbh
    rw [hw.next]
    apply hf.bridges h
    intro hn
    apply hbh
    rw [hb, hn, ite_self]

theorem unannounced (hf : Follows c l attempt) (hc : c.Sound) :
    l.loops.find? ⟨c.next⟩ = none ∧ l.bridges.find? ⟨c.next⟩ = none := by
  constructor
  · rw [Option.eq_none_iff_forall_ne_some]
    exact fun s hs => hc.loop?_ne_next s ((hf.loops s _).1 hs)
  · by_contra hb
    exact lt_irrefl _ (hf.bridges _ hb)

theorem liveLoop?_eq (hf : Follows c l attempt) (s : Site) : (l.phase s).liveLoop? = c.loop? s := by
  refine Option.ext fun h => ?_
  rw [hf.sound.live_iff, hf.loops]

theorem loop?_of_attempt (hf : Follows c l (some (e.site k))) : c.loop? (e.site k) = none := by
  have hp := (hf.compiling (e.site k)).2 rfl
  rw [← hf.liveLoop?_eq, hp]
  rfl

theorem settled {s : Site} {h : Handle} (hf : Follows c l attempt) (hl : c.loop? s = some h) :
    Ledger.Settled (l.phase s) := by
  rw [← hf.liveLoop?_eq] at hl
  cases hp : l.phase s with
  | compiled j => exact ⟨by simp, by simp, by simp⟩
  | bridged j n => exact ⟨by simp, by simp, by simp⟩
  | _ =>
      rw [hp] at hl
      cases hl

/-- One site goes over to another phase, and it alone may begin or end to be compiled. -/
theorem compiling_of_phase {l' : Ledger} {attempt' : Option Site} {s₀ : Site} {p : Phase}
    (hf : Follows c l attempt) (hphase : ∀ s, l'.phase s = if s = s₀ then p else l.phase s)
    (hp : p = .compiling ↔ attempt' = some s₀)
    (hother : ∀ s, s ≠ s₀ → (attempt = some s ↔ attempt' = some s)) (s : Site) :
    l'.phase s = .compiling ↔ attempt' = some s := by
  rw [hphase]
  split_ifs with hs
  · rw [hs]
    exact hp
  · rw [hf.compiling]
    exact hother s hs

theorem of_phase {l' : Ledger} {attempt' : Option Site} {s₀ : Site} {p : Phase}
    (hf : Follows c l attempt) (hs : l'.Sound) (hloops : l'.loops = l.loops)
    (hbridges : l'.bridges = l.bridges) (hphase : ∀ s, l'.phase s = if s = s₀ then p else l.phase s)
    (hp : p = .compiling ↔ attempt' = some s₀)
    (hother : ∀ s, s ≠ s₀ → (attempt = some s ↔ attempt' = some s)) : Follows c l' attempt' where
  sound := hs
  compiling := hf.compiling_of_phase hphase hp hother
  loops := fun s h => by
    rw [hloops]
    exact hf.loops s h
  bridges := fun h hb => by
    rw [hbridges] at hb
    exact hf.bridges h hb

theorem begin (hf : Follows c l none) (hl : c.loop? (e.site k) = none) :
    ∃ l', l.begin e k = .ok l' ∧ Follows c l' (some (e.site k)) := by
  have hlive := (hf.liveLoop?_eq (e.site k)).trans hl
  have hidle : l.phase (e.site k) ≠ .compiling := fun hp => by cases (hf.compiling _).1 hp
  obtain ⟨l', hb, hs, hloops, hbridges, hphase⟩ := Ledger.begin_spec hf.sound hidle hlive
  refine ⟨l', hb, hf.of_phase hs hloops hbridges hphase (by simp) ?_⟩
  intro s hs
  simp [Ne.symm hs]

theorem abort (hf : Follows c l (some (e.site k))) (cause : Abort) :
    ∃ l', l.abort cause e k = .ok l' ∧ Follows c l' none := by
  have hp := (hf.compiling (e.site k)).2 rfl
  obtain ⟨l', ha, hs, hloops, hbridges, hphase⟩ := Ledger.abort_compiling cause hf.sound hp
  refine ⟨l', ha, hf.of_phase hs hloops hbridges hphase (by simp) ?_⟩
  intro s hs
  simp [Ne.symm hs]

theorem abort_settled (hf : Follows c l attempt) (cause : Abort)
    (hs : Ledger.Settled (l.phase (e.site k))) :
    ∃ l', l.abort cause e k = .ok l' ∧ Follows c l' attempt :=
  ⟨_, Ledger.abort_settled cause hs, ⟨hf.sound.disjoint, hf.sound.live_iff⟩, hf.compiling, hf.loops,
    hf.bridges⟩

theorem announceLoop {h : Handle} (hf : Follows c l (some (e.site k)))
    (hj : l.loops.find? h = none) (hb : l.bridges.find? h = none) (g : Guards) (ops : List Op) :
    ∃ l', l.announceLoop e k h = .ok l' ∧ Follows (c.putLoop h (e.site k) g ops) l' none := by
  have hp := (hf.compiling (e.site k)).2 rfl
  have hfree := hf.loop?_of_attempt
  obtain ⟨l', ha, hs, hbridges, hloops, hphase⟩ := Ledger.announceLoop_spec hf.sound hp hj hb
  refine ⟨l', ha, hs, hf.compiling_of_phase hphase (by simp) fun s hs => ?_, fun s j => ?_,
    fun j hbj => ?_⟩
  · simp [Ne.symm hs]
  · rw [hloops, Cache.loop?_putLoop]
    have hother := hf.loops s j
    by_cases hjh : j = h
    · rw [if_pos hjh]
      by_cases he : s = e.site k
      · simp [he, hjh]
      · rw [hjh, hj] at hother
        rw [if_neg he, hjh, ← hother]
        simp [Ne.symm he]
    · rw [if_neg hjh, hother]
      by_cases he : s = e.site k
      · rw [if_pos he, he, hfree]
        simp [Ne.symm hjh]
      · rw [if_neg he]
  · rw [hbridges] at hbj
    exact hf.bridges j hbj

theorem announceBridge {s : Site} {parent b : Handle} (hf : Follows c l none)
    (hs : c.loop? s = some parent) (he : s.entry = e.id) (hb : l.loops.find? b = none)
    (hr : (l.phase s).Room) (hn : b.number < c.next) (i : Nat) (g : Guards) (ops : List Op) :
    ∃ l', l.announceBridge e parent b = .ok l' ∧ Follows (c.putBridge b parent s i g ops) l' none := by
  obtain ⟨l', n, ha, hsound, hloops, hbridges, hphase⟩ :=
    Ledger.announceBridge_spec hf.sound ((hf.loops s parent).2 hs) he hb hr
  refine ⟨l', ha, hsound, hf.compiling_of_phase hphase (by simp) fun _ _ => Iff.rfl, fun s' j => ?_,
    fun j hbj => ?_⟩
  · rw [hloops]
    exact hf.loops s' j
  · rw [hbridges] at hbj
    split_ifs at hbj with hjb
    · rw [hjb]
      exact hn
    · exact hf.bridges j hbj

end Follows

/-! ## The mode -/

namespace Mode

def attempt? (e : EntryPoint) : Mode → Option Site
  | .tracingLoop r => some (e.site r.key)
  | _ => none

/-- What a mode of a loop at `e` relies on. The artifact that a bridge is traced for, or that runs,
is a loop at `e` as long as it is live; the key of an open trace is accepted, and giving it up is
in order. -/
def Fits (e : EntryPoint) (s : Shapes) (c : Cache) (l : Ledger) : Mode → Prop
  | .tracingLoop r => s.Accepts e r.key
  | .tracingBridge p _ r => s.Accepts e r.key ∧ Ledger.Settled (l.phase (e.site r.key)) ∧
      p.number < c.next ∧ ∀ a, c.get? p = some a → a.kind = .loop ∧ a.site.entry = e.id
  | .running h _ _ => h.number < c.next ∧ ∀ a, c.get? h = some a →
      a.kind = .loop ∧ a.site.entry = e.id ∧ s.Accepts e a.site.key
  | _ => True

variable {e : EntryPoint} {s s' : Shapes} {c c' : Cache} {l l' : Ledger} {m : Mode}

theorem Fits.later (hm : m.Fits e s c l) (hs : ∀ k, s.Accepts e k → s'.Accepts e k)
    (hc : c.Later c') (hl : ∀ i, Ledger.Settled (l.phase i) → Ledger.Settled (l'.phase i)) :
    m.Fits e s' c' l' := by
  cases m with
  | tracingLoop r => exact hs r.key hm
  | tracingBridge p i r =>
      obtain ⟨hk, hset, hp, hlive⟩ := hm
      refine ⟨hs r.key hk, hl _ hset, hp.trans_le hc.next, fun a' ha' => ?_⟩
      obtain ⟨a, ha, hkind, hsite, -⟩ := hc.live p a' hp ha'
      rw [hkind, hsite]
      exact hlive a ha
  | running h expected n =>
      obtain ⟨hh, hlive⟩ := hm
      refine ⟨hh.trans_le hc.next, fun a' ha' => ?_⟩
      obtain ⟨a, ha, hkind, hsite, -⟩ := hc.live h a' hh ha'
      obtain ⟨hloop, hentry, hkey⟩ := hlive a ha
      rw [hkind, hsite]
      exact ⟨hloop, hentry, hs _ hkey⟩
  | _ => trivial

theorem attempt?_modifyRecording (e : EntryPoint) {g : Recording → Recording}
    (hg : ∀ r, (g r).key = r.key) (m : Mode) : (m.modifyRecording g).attempt? e = m.attempt? e := by
  cases m with
  | tracingLoop r => exact congrArg (fun k => some (e.site k)) (hg r)
  | _ => rfl

theorem Fits.modifyRecording (hm : m.Fits e s c l) {g : Recording → Recording}
    (hg : ∀ r, (g r).key = r.key) : (m.modifyRecording g).Fits e s c l := by
  cases m with
  | tracingLoop r =>
      change s.Accepts e (g r).key
      rw [hg]
      exact hm
  | tracingBridge p i r =>
      change s.Accepts e (g r).key ∧ Ledger.Settled (l.phase (e.site (g r).key)) ∧ _
      rw [hg]
      exact hm
  | _ => exact hm

theorem attempt?_of_recording? (hm : m.recording? = none) : m.attempt? e = none := by
  cases m with
  | tracingLoop r => cases hm
  | _ => rfl

theorem attempt?_of_artifact? {h : Handle} (hm : m.artifact? = some h) : m.attempt? e = none := by
  cases m with
  | tracingLoop r => cases hm
  | _ => rfl

end Mode

/-! ## The tracer -/

namespace Tracer

/-- The ledger follows the cache, and the mode fits both. If `q`, then no observer ever fails. -/
structure Orderly (q : Prop) (e : EntryPoint) (t : Tracer) (m : Mode) : Prop where
  sound : t.cache.Sound
  follows : Follows t.cache t.monitor.ledger (m.attempt? e)
  fits : m.Fits e t.shapes t.cache t.monitor.ledger
  quiet : q → t.monitor.Quiet

def SameView (t t' : Tracer) : Prop := t'.heap = t.heap ∧ t'.shapes = t.shapes

structure SameStores (t t' : Tracer) : Prop where
  heap : t'.heap = t.heap
  cache : t'.cache = t.cache
  monitor : t'.monitor = t.monitor
  shapes : t'.shapes = t.shapes

theorem SameView.refl (t : Tracer) : SameView t t := ⟨rfl, rfl⟩

theorem SameView.trans {t t' t'' : Tracer} (h : SameView t t') (h' : SameView t' t'') :
    SameView t t'' := ⟨h'.1.trans h.1, h'.2.trans h.2⟩

theorem SameStores.view {t t' : Tracer} (h : SameStores t t') : SameView t t' := ⟨h.heap, h.shapes⟩

variable {q : Prop} {e : EntryPoint} {t t' : Tracer} {m m' : Mode} {k : Key}

namespace Orderly

theorem same (h : t.Orderly q e m) (hs : SameStores t t') : t'.Orderly q e m := by
  obtain ⟨-, hc, hm, hshapes⟩ := hs
  refine ⟨hc ▸ h.sound, ?_, ?_, ?_⟩
  · rw [hc, hm]
    exact h.follows
  · rw [hshapes, hc, hm]
    exact h.fits
  · rw [hm]
    exact h.quiet

theorem mode (h : t.Orderly q e m) (ha : m.attempt? e = none) (ha' : m'.attempt? e = none)
    (hf : m'.Fits e t.shapes t.cache t.monitor.ledger) : t.Orderly q e m' := by
  refine ⟨h.sound, ?_, hf, h.quiet⟩
  rw [ha', ← ha]
  exact h.follows

theorem interpreting (h : t.Orderly q e m) (ha : m.attempt? e = none) :
    t.Orderly q e .interpreting := h.mode ha rfl trivial

theorem modifyRecording (h : t.Orderly q e m) {g : Recording → Recording}
    (hg : ∀ r, (g r).key = r.key) : t.Orderly q e (m.modifyRecording g) := by
  refine ⟨h.sound, ?_, h.fits.modifyRecording hg, h.quiet⟩
  rw [Mode.attempt?_modifyRecording e hg]
  exact h.follows

theorem recount (h : t.Orderly q e m) (hs : t'.cache.Sound) (hl : t.cache.Later t'.cache)
    (hloops : t'.cache.loops = t.cache.loops) (hm : t'.monitor = t.monitor)
    (hshapes : t'.shapes = t.shapes) : t'.Orderly q e m := by
  have hloop? : ∀ s, t'.cache.loop? s = t.cache.loop? s := by
    intro s
    unfold Cache.loop?
    rw [hloops]
  refine ⟨hs, ?_, ?_, ?_⟩
  · rw [hm]
    exact h.follows.of_loops hloop? hl.next
  · rw [hm, hshapes]
    exact h.fits.later (fun _ hk => hk) hl fun _ hset => hset
  · rw [hm]
    exact h.quiet

/-- Artifacts are retired, and then forgotten. -/
theorem forgetAll {gone : List Handle} (h : t.Orderly q e m) (hw : t.cache.Without t'.cache gone)
    (hm : t'.monitor = t.monitor) (hs : t'.shapes = t.shapes) :
    (t'.forgetAll gone).Orderly q e m := by
  obtain ⟨hcode, hshapes, hledger, hquiet⟩ := forgetAll_reported t' gone
  rw [hm] at hledger hquiet
  obtain ⟨-, -, -, -, hset⟩ := Ledger.foldl_forget_spec gone h.follows.sound
  refine ⟨?_, ?_, ?_, fun hq => hquiet (h.quiet hq)⟩
  · rw [hcode.cache]
    exact hw.sound h.sound
  · rw [hcode.cache, hledger]
    exact h.follows.without hw
  · rw [hshapes, hs, hcode.cache, hledger]
    exact h.fits.later (fun _ hk => hk) hw.later hset

theorem of_reported {l : Ledger} (ht : t.Reported l t') (hs : t.cache.Sound)
    (hf : Follows t.cache l (m.attempt? e)) (hm : m.Fits e t.shapes t.cache l)
    (hq : q → t.monitor.Quiet) : t'.Orderly q e m := by
  refine ⟨?_, ?_, ?_, fun h => ht.quiet (hq h)⟩
  · rw [ht.cache]
    exact hs
  · rw [ht.cache, ht.ledger]
    exact hf
  · rw [ht.shapes, ht.cache, ht.ledger]
    exact hm

end Orderly

structure Halts (q : Prop) (e : EntryPoint) (t : Tracer) (f : Fault) (t' : Tracer) : Prop where
  loud : ¬ q
  hook : ∃ hook, f = .observerFailed hook
  orderly : t'.Orderly q e .interpreting
  view : SameView t t'

/-- What a step from `t'` ends in, seen from a tracer of the same view. -/
theorem ends_of_view {α : Type} {P : α → Tracer → Prop} {r : EStateM.Result Fault Tracer α}
    (h : Ends (fun a t'' => P a t'' ∧ SameView t' t'') (Halts q e t') r) (hv : SameView t t') :
    Ends (fun a t'' => P a t'' ∧ SameView t t'') (Halts q e t) r :=
  h.imp (fun _ _ h => ⟨h.1, hv.trans h.2⟩) fun _ _ h => ⟨h.loud, h.hook, h.orderly, hv.trans h.view⟩

/-- The step ended with a fault since an observer failed or since a bridge could not be counted. No
trace is open any more, and all is in order. -/
structure Breaks (q : Prop) (e : EntryPoint) (t : Tracer) (f : Fault) (t' : Tracer) : Prop where
  cause : (¬ q ∧ ∃ hook, f = .observerFailed hook) ∨ f = .countOverflow
  orderly : t'.Orderly q e .interpreting
  view : SameView t t'

theorem breaks_of_halts {α : Type} {P : α → Tracer → Prop} {r : EStateM.Result Fault Tracer α}
    (h : Ends P (Halts q e t) r) : Ends P (Breaks q e t) r :=
  h.imp (fun _ _ h => h) fun _ _ h => ⟨Or.inl ⟨h.loud, h.hook⟩, h.orderly, h.view⟩

/-- A report that ends a trace, if the ledger accepts it. -/
theorem orderly_report {r : Report} {l : Ledger} (hr : r.Accepted t.shapes)
    (hl : r.step t.monitor.ledger = .ok l) (hs : t.cache.Sound) (hf : Follows t.cache l none)
    (hq : q → t.monitor.Quiet) :
    Ends (fun _ t' => t'.Orderly q e .interpreting ∧ SameView t t') (Halts q e t) (report r t) := by
  have ho : ∀ t', t.Reported l t' → t'.Orderly q e .interpreting := fun t' ht =>
    Orderly.of_reported ht hs hf trivial hq
  refine (report_ends hr hl).imp (fun _ t' ht => ⟨ho t' ht, ht.heap, ht.shapes⟩) ?_
  rintro f t' ⟨hhook, hloud, ht⟩
  exact ⟨fun h => hloud (hq h), hhook, ho t' ht, ht.heap, ht.shapes⟩

/-- Giving up the open trace is always in order. -/
theorem orderly_abort (h : t.Orderly q e m) {r : Recording} (hr : m.recording? = some r)
    (cause : Abort) :
    Ends (fun _ t' => t'.Orderly q e .interpreting ∧ SameView t t') (Halts q e t)
      (report (.abort cause e r.key) t) := by
  cases m with
  | tracingLoop r' =>
      obtain rfl := Option.some.inj hr
      obtain ⟨l, hl, hf⟩ := Follows.abort h.follows cause
      have hk : t.shapes.Accepts e r'.key := h.fits
      exact orderly_report hk hl h.sound hf h.quiet
  | tracingBridge p i r' =>
      obtain rfl := Option.some.inj hr
      obtain ⟨hk, hset, -⟩ := h.fits
      obtain ⟨l, hl, hf⟩ := h.follows.abort_settled cause hset
      exact orderly_report hk hl h.sound hf h.quiet
  | _ => cases hr

theorem orderly_leaveLoop (h : t.Orderly q e m) :
    Ends (fun _ t' => t'.Orderly q e .interpreting ∧ SameView t t') (Halts q e t)
      (leaveLoop e m t) := by
  cases m with
  | tracingLoop r => exact orderly_abort h rfl .badLoop
  | tracingBridge p i r => exact orderly_abort h rfl .bridge
  | _ => exact ⟨h.interpreting rfl, SameView.refl t⟩

/-! ### Counting and entering -/

theorem orderly_countHit (h : t.Orderly q e m) (ha : m.attempt? e = none)
    (hk : t.shapes.Accepts e k) (hl : t.cache.loop? (e.site k) = none) :
    Ends (fun m' t' => t'.Orderly q e m' ∧ SameView t t') (Halts q e t) (countHit e k t) := by
  have hi := h.interpreting ha
  rw [countHit_eq]
  dsimp only
  split_ifs
  · exact ⟨hi.same ⟨rfl, rfl, rfl, rfl⟩, rfl, rfl⟩
  · obtain ⟨l, hb, hf⟩ := Follows.begin hi.follows hl
    obtain ⟨t', hr, ht⟩ := report_begin (t := { t with hits := t.hits.insert (e.site k) 0 }.note
      [.loopTraced e k]) hk hb
    refine Ends.bind ?_
    rw [hr]
    exact ⟨Orderly.of_reported (m := .tracingLoop { key := k, ops := [.label] }) ht h.sound hf hk
      h.quiet, ht.heap, ht.shapes⟩

/-- Entering a live artifact: either it is entered, or it is retired, and is then to be forgotten. -/
theorem orderly_enter (h : t.Orderly q e m) {j : Handle} {a : Artifact}
    (ha : t.cache.get? j = some a) :
    (t.cache.enter j).2 = .entered ∧ (t.enter j).1.Orderly q e m ∨
      ∃ l, (t.cache.enter j).2 = .guardFailed l (t.cache.retire j).2 ∧
        ∀ t', SameStores (t.enter j).1 t' → (t'.forgetAll (t.cache.retire j).2).Orderly q e m ∧
          SameView t (t'.forgetAll (t.cache.retire j).2) ∧
          (t'.forgetAll (t.cache.retire j).2).cache = (t.cache.retire j).1 := by
  cases hg : a.guards.firstStale? t.cache.versions with
  | none =>
      have he := Cache.enter_of_current ha hg
      have hs := h.sound.enter j
      have hl := Cache.later_enter h.sound j
      refine Or.inl ⟨congrArg Prod.snd he, h.recount hs hl ?_ rfl rfl⟩
      rw [enter_eq, he]
  | some v =>
      have he := Cache.enter_of_stale ha hg
      have hw := Cache.without_retire h.sound j
      refine Or.inr ⟨v.location, congrArg Prod.snd he, fun t' ht => ?_⟩
      have hc : t'.cache = (t.cache.retire j).1 := ht.cache.trans (congrArg Prod.fst he)
      have hf := forgetAll_reported t' (t.cache.retire j).2
      rw [← hc] at hw
      refine ⟨h.forgetAll hw ht.monitor ht.shapes, ?_, hf.cache.trans hc⟩
      exact ⟨hf.heap.trans ht.heap, hf.shapes.trans ht.shapes⟩

theorem orderly_enterOrCount (h : t.Orderly q e m) (ha : m.attempt? e = none)
    (hk : t.shapes.Accepts e k) :
    Ends (fun m' t' => t'.Orderly q e m' ∧ SameView t t') (Halts q e t)
      (enterOrCount e k t) := by
  have hi := h.interpreting ha
  rw [enterOrCount_eq]
  split_ifs
  · cases hl : t.cache.loop? (e.site k) with
    | none => exact orderly_countHit h ha hk hl
    | some j =>
        obtain ⟨a, haj, hkind, hsite⟩ := (h.sound.loop_iff _ _).1 hl
        dsimp only
        rcases orderly_enter hi haj with ⟨hin, hin'⟩ | ⟨l, hout, hout'⟩
        · obtain ⟨b, hb, -, hc⟩ := Cache.of_enter_entered hin
          obtain rfl := Option.some.inj (haj.symm.trans hb)
          rw [hin]
          refine ⟨hin'.mode rfl rfl ⟨?_, fun a' ha' => ?_⟩, SameView.refl t⟩
          · exact (h.sound.handle j a haj).2.trans_le (Cache.later_enter h.sound j).next
          · have ha' : (t.cache.enter j).1.get? j = some a' := ha'
            rw [hc] at ha'
            obtain ⟨b, n, hb, rfl⟩ := Cache.of_get?_entered ha'
            obtain rfl := Option.some.inj (haj.symm.trans hb)
            refine ⟨hkind, ?_, ?_⟩
            · rw [hsite]
              rfl
            · rw [hsite]
              exact hk
        · rw [hout]
          obtain ⟨ho, hview, hc⟩ := hout' ((t.enter j).1.note [.loopRefused j l])
            ⟨rfl, rfl, rfl, rfl⟩
          refine ends_of_view (orderly_countHit ho rfl ?_ ?_) hview
          · rw [hview.2]
            exact hk
          · -- the loop that the site had is the one that was retired
            rw [hc, Option.eq_none_iff_forall_ne_some]
            intro j' hj'
            obtain ⟨hj', hgone⟩ := ((Cache.without_retire h.sound j).loops _ _).1 hj'
            obtain rfl := Option.some.inj (hl.symm.trans hj')
            exact hgone ((Cache.mem_retire h.sound).2 ⟨a, haj, Or.inl rfl⟩)
  · exact ⟨hi, SameView.refl t⟩

theorem orderly_countFailure {j : Handle} {expected : List Bool} {n : Nat}
    (h : t.Orderly q e (.running j expected n)) (i : Nat) :
    (t.countFailure j i).1.Orderly q e (t.countFailure j i).2 ∧
      SameView t (t.countFailure j i).1 := by
  have hi := h.interpreting rfl
  unfold countFailure
  cases ha : t.cache.get? j with
  | none => exact ⟨hi, SameView.refl t⟩
  | some a =>
      obtain ⟨hj, hlive⟩ := h.fits
      obtain ⟨hkind, hentry, hkey⟩ := hlive a ha
      have hsite : e.site a.site.key = a.site := by rw [EntryPoint.site, ← hentry]
      have hset := h.follows.settled ((h.sound.loop_iff a.site j).2 ⟨a, ha, hkind, rfl⟩)
      dsimp only
      split_ifs
      · exact ⟨hi.same ⟨rfl, rfl, rfl, rfl⟩, rfl, rfl⟩
      · refine ⟨⟨h.sound, hi.follows, ⟨hkey, ?_, hj, fun b hb => ?_⟩, h.quiet⟩, rfl, rfl⟩
        · change Ledger.Settled (t.monitor.ledger.phase (e.site a.site.key))
          rw [hsite]
          exact hset
        · obtain ⟨hbkind, hbentry, -⟩ := hlive b hb
          exact ⟨hbkind, hbentry⟩

theorem orderly_guardFailed {j : Handle} {expected : List Bool} {n : Nat}
    (h : t.Orderly q e (.running j expected n)) (i : Nat) :
    (t.guardFailed j i).1.Orderly q e (t.guardFailed j i).2 ∧
      SameView t (t.guardFailed j i).1 := by
  rw [guardFailed_eq]
  cases hb : t.cache.bridge? j i with
  | none => exact orderly_countFailure h i
  | some b =>
      obtain ⟨a, ha, hab⟩ := Cache.bridge?_eq_some hb
      obtain ⟨-, ba, hba, -⟩ := h.sound.bridge j a i b ha hab
      dsimp only
      rcases orderly_enter h hba with ⟨hin, hin'⟩ | ⟨l, hout, hout'⟩
      · rw [hin]
        exact ⟨hin'.mode rfl rfl trivial, SameView.refl t⟩
      · rw [hout]
        obtain ⟨ho, hview, -⟩ := hout' (t.enter b).1 ⟨rfl, rfl, rfl, rfl⟩
        obtain ⟨hc, hcview⟩ := orderly_countFailure ho i
        exact ⟨hc, hview.trans hcview⟩

/-! ### Closing traces -/

theorem orderly_closeLoop {r : Recording} (h : t.Orderly q e (.tracingLoop r)) :
    Ends (fun _ t' => t'.Orderly q e .interpreting ∧ SameView t t') (Halts q e t)
      (closeLoop e r t) := by
  have hk : t.shapes.check e r.key = .ok t.shapes := h.fits
  have hreg := h.sound.register r.guards
  rw [closeLoop_eq, installLoop_eq, hk]
  dsimp only
  cases hg : r.guards.firstStale? t.cache.versions with
  | some v =>
      rw [Cache.addLoop_of_stale hg]
      refine ends_of_view (orderly_abort (m := .tracingLoop r) ?_ rfl .forcedWrite) ⟨rfl, rfl⟩
      exact h.recount hreg (Cache.later_register _ _) rfl rfl rfl
  | none =>
      -- the cache has the loop before the ledger does, and the report makes up for it
      have hsound := h.sound.addLoop (e.site r.key) r.guards (r.ops ++ [.jump])
      obtain ⟨hj, hb⟩ := h.follows.unannounced h.sound
      obtain ⟨hw, -⟩ := Cache.without_vacate hreg (e.site r.key)
      rw [Cache.addLoop_of_current hg] at hsound ⊢
      generalize hgone : ((t.cache.register r.guards).1.vacate (e.site r.key)).2 = gone at *
      have hf : Follows (t.cache.register r.guards).1 t.monitor.ledger (some (e.site r.key)) :=
        h.follows.of_loops (fun _ => rfl) (Nat.le_succ _)
      obtain ⟨-, hb', hj', -⟩ := Ledger.foldl_forget_spec gone h.follows.sound
      obtain ⟨l, hl, hf'⟩ := (hf.without hw).announceLoop (h := ⟨t.cache.next⟩)
        (by rw [hj', hj, ite_self]) (by rw [hb', hb, ite_self]) r.guards (r.ops ++ [.jump])
      have hrep := fun t₁ => forgetAll_reported t₁ gone
      dsimp only
      refine ends_of_view (orderly_report (l := l) ?_ ?_ ?_ ?_ ?_) ?_
      · change Shapes.Accepts _ e r.key
        rw [(hrep _).shapes]
        exact hk
      · change Ledger.announceLoop _ e r.key _ = .ok l
        rw [(hrep _).ledger]
        exact hl
      · rw [(hrep _).cache]
        exact hsound
      · rw [(hrep _).cache]
        exact hf'
      · exact fun hq => (hrep _).quiet (h.quiet hq)
      · exact ⟨(hrep _).heap, (hrep _).shapes⟩

theorem orderly_closeBridge {p : Handle} {i : Nat} {r : Recording}
    (h : t.Orderly q e (.tracingBridge p i r)) :
    Ends (fun _ t' => t'.Orderly q e .interpreting ∧ SameView t t') (Breaks q e t)
      (closeBridge e p i r t) := by
  rw [closeBridge_eq]
  split_ifs with hlive
  · obtain ⟨a, ha⟩ := (Cache.isLive_iff _ _).1 hlive
    obtain ⟨-, -, -, hparent⟩ := h.fits
    obtain ⟨hkind, hentry⟩ := hparent a ha
    have hreg := h.sound.register r.guards
    have hloop : a.IsLoop := hkind
    rw [installBridge_eq, ha]
    dsimp only
    rw [if_pos hloop]
    cases hg : r.guards.firstStale? t.cache.versions with
    | some v =>
        rw [Cache.addBridge_of_stale hg]
        refine breaks_of_halts (ends_of_view
          (orderly_abort (m := .tracingBridge p i r) ?_ rfl .forcedWrite) ⟨rfl, rfl⟩)
        exact h.recount hreg (Cache.later_register _ _) rfl rfl rfl
    | none =>
        have hsound := h.sound.addBridge ha hkind i r.guards (r.ops ++ [.jump])
        obtain ⟨hj, -⟩ := h.follows.unannounced h.sound
        have hf : Follows (t.cache.register r.guards).1 t.monitor.ledger none :=
          h.follows.of_loops (fun _ => rfl) (Nat.le_succ _)
        have hsite : (t.cache.register r.guards).1.loop? a.site = some p :=
          (h.sound.loop_iff _ _).2 ⟨a, ha, hkind, rfl⟩
        rw [Cache.addBridge_of_current hg] at hsound ⊢
        dsimp only
        by_cases hroom : (t.monitor.ledger.phase a.site).Room
        · obtain ⟨l, hl, hf'⟩ := hf.announceBridge (b := ⟨t.cache.next⟩) hsite hentry hj hroom
            (Nat.lt_succ_self _) i r.guards (r.ops ++ [.jump])
          refine breaks_of_halts (ends_of_view
            (orderly_report (l := l) ?_ hl hsound hf' h.quiet) ⟨rfl, rfl⟩)
          trivial
        · -- the cache has the bridge, and the ledger is as it was
          have hl := Ledger.announceBridge_of_full (b := ⟨t.cache.next⟩) h.follows.sound
            ((hf.loops a.site p).2 hsite) hentry hroom
          have hf' : Follows ((t.cache.register r.guards).1.putBridge ⟨t.cache.next⟩ p a.site i
              r.guards (r.ops ++ [.jump])) t.monitor.ledger none :=
            hf.of_loops (fun _ => rfl) (Nat.le_refl _)
          refine ends_report_of_error ?_ hl ⟨Or.inr rfl, ⟨hsound, hf', trivial, h.quiet⟩, rfl, rfl⟩
          trivial
  · exact breaks_of_halts (orderly_abort h rfl .bridge)

theorem orderly_mergePoint (h : t.Orderly q e m) (hk : t.shapes.Accepts e k) :
    Ends (fun m' t' => t'.Orderly q e m' ∧ SameView t t') (Breaks q e t)
      (mergePoint e k m t) := by
  -- behind a closed trace the pass goes on as if there had been none
  have hnext : ∀ {m' t'}, t'.Orderly q e m' → m'.attempt? e = none → SameView t t' →
      Ends (fun m' t' => t'.Orderly q e m' ∧ SameView t t') (Breaks q e t)
        (enterOrCount e k t') := by
    intro m' t' ho ha hview
    have hk' : t'.shapes.Accepts e k := by
      rw [hview.2]
      exact hk
    exact breaks_of_halts (ends_of_view (orderly_enterOrCount ho ha hk') hview)
  refine ends_mergePoint ?_ ?_ (fun _ _ _ => ⟨h, SameView.refl t⟩) fun hm =>
    hnext h (Mode.attempt?_of_recording? hm) (SameView.refl t)
  · rintro r rfl -
    exact Ends.bind ((breaks_of_halts (orderly_closeLoop h)).imp (fun _ _ h => hnext h.1 rfl h.2)
      fun _ _ hf => hf)
  · rintro p i r rfl -
    exact Ends.bind ((orderly_closeBridge h).imp (fun _ _ h => hnext h.1 rfl h.2) fun _ _ hf => hf)

end Tracer

end HotLoop
