import HotLoop.Proofs.Counts
import HotLoop.Proofs.Heads
import HotLoop.Proofs.Repetition
import HotLoop.Proofs.Trust

/-!
# Ready for the reports to come

A client may fault anywhere and leave an attempt behind that nobody ends, and later attempts at
that site are refused. What the tracer needs for its own reports survives this: a site with a live
loop is settled, handles that were not given out yet are not announced, and the site whose loop is
traced is being compiled. So a trace can always be given up, and a loop that is installed can be
announced. The guards of the open trace are current when it closes, so closing a trace never gives
it up for a write.
-/

namespace HotLoop

open Code Journal Lifecycle Trace

/-! ## The ledger -/

namespace Lifecycle

def Act.forced : Act → Nat
  | .report (.abort cause _ _) => if .forcedWrite = cause then 1 else 0
  | _ => 0

def Act.ended? : Act → Option Site
  | .report (.abort _ e k) => some (e.site k)
  | .report (.loop e k _ _ _ _ _) => some (e.site k)
  | _ => none

namespace Ledger

variable {l l' l'' : Ledger} {a : Act} {s : Site} {h : Handle}

def forced (l : Ledger) : Nat := l.tally.aborts.count .forcedWrite

theorem Takes.forced_eq (ht : l.Takes a l') : l'.forced = l.forced + a.forced := by
  cases ht with
  | abort cause e k hp => exact AbortCounts.count_add _ cause .forcedWrite 1
  | abortBridge cause e k hp => exact AbortCounts.count_add _ cause .forcedWrite 1
  | _ => rfl

/-- Only an attempt that begins can unsettle a site. -/
theorem Takes.settled (ht : l.Takes a l') (hs : Settled (l.phase s))
    (ha : ∀ e k, a = .report (.begin e k) → s ≠ e.site k) : Settled (l'.phase s) := by
  have hc := hs.2.2
  cases ht with
  | begin e k hp =>
      rw [Ledger.phase, phase_insert, if_neg (ha e k rfl)]
      exact hs
  | abort cause e k hp =>
      have hne : s ≠ e.site k := fun he => hc (he ▸ hp)
      rw [Ledger.phase, phase_insert, if_neg hne]
      exact hs
  | abortBridge cause e k hp => exact hs
  | loop e k j ops kind address length hp hn =>
      have hne : s ≠ e.site k := fun he => hc (he ▸ hp)
      rw [Ledger.phase, phase_insert, if_neg hne]
      exact hs
  | bridge e parent b i ops address length hl he hp =>
      obtain ⟨-, -, rfl⟩ := bridgedPhase_eq_ok_iff.1 hp
      rw [Ledger.phase, phase_insert]
      split_ifs
      · exact ⟨by simp, by simp, by simp⟩
      · exact hs
  | retireBridge hb => exact hs
  | retireLoop hb hl hp =>
      rw [Ledger.phase, phase_insert]
      split_ifs
      · exact ⟨by simp, by simp, by simp⟩
      · exact hs
  | retireReplaced hb hl hp => exact hs

theorem Takes.compiling (ht : l.Takes (.retire h) l') (hs : l.phase s = .compiling) :
    l'.phase s = .compiling := by
  cases ht with
  | retireBridge hb => exact hs
  | retireLoop hb hl hp =>
      rw [Ledger.phase, phase_insert, if_neg]
      · exact hs
      · rintro rfl
        rw [hs] at hp
        cases hp
  | retireReplaced hb hl hp => exact hs

def Closes (gone : Option Site) (l l' : Ledger) : Prop :=
  ∀ s, l'.phase s = .compiling ↔ l.phase s = .compiling ∧ gone ≠ some s

theorem Closes.refl (l : Ledger) : Closes none l l := fun s => by simp

theorem Closes.behind {gone : Option Site} (h : Closes none l l') (h' : Closes gone l' l'') :
    Closes gone l l'' := fun s => by rw [h' s, h s]; simp

theorem Takes.closes (ht : l.Takes a l') (ha : ∀ e k, a ≠ .report (.begin e k)) :
    Closes a.ended? l l' := by
  have hinsert : ∀ {s' : Site} {p : Phase} (s : Site), p ≠ .compiling →
      ((l.phases.insert s' p).findD s .untouched = .compiling ↔
        l.phase s = .compiling ∧ some s' ≠ some s) := by
    intro s' p s hp
    rw [phase_insert]
    split_ifs with hs
    · simp [hs, hp]
    · simp [Ne.symm hs]
  -- a settled site is not being compiled, before or behind
  have hsettled : ∀ {s' : Site} {p : Phase} (s : Site), p ≠ .compiling →
      l.phase s' ≠ .compiling →
      ((l.phases.insert s' p).findD s .untouched = .compiling ↔
        l.phase s = .compiling ∧ (none : Option Site) ≠ some s) := by
    intro s' p s hp hold
    rw [hinsert s hp]
    simp only [ne_eq, Option.some.injEq, reduceCtorEq, not_false_eq_true, and_true,
      and_iff_left_iff_imp]
    rintro hs rfl
    exact hold hs
  intro s
  cases ht with
  | begin e k hp => exact absurd rfl (ha e k)
  | abort cause e k hp => exact hinsert s (by simp)
  | abortBridge cause e k hp =>
      refine ⟨fun hs => ⟨hs, ?_⟩, fun hs => hs.1⟩
      rintro he
      obtain rfl := Option.some.inj he
      exact hp.2.2 hs
  | loop e k j ops kind address length hp hn => exact hinsert s (by simp)
  | bridge e parent b i ops address length hl he hp =>
      obtain ⟨hlive, -, rfl⟩ := bridgedPhase_eq_ok_iff.1 hp
      refine hsettled s (by simp) fun hc => ?_
      rw [hc] at hlive
      cases hlive
  | retireBridge hb => exact Closes.refl l s
  | retireLoop hb hl hp =>
      refine hsettled s (by simp) fun hc => ?_
      rw [hc] at hp
      cases hp
  | retireReplaced hb hl hp => exact Closes.refl l s

/-- Behind the beginning of an attempt, its site is the only new one. -/
theorem Takes.closes_of_begin {e : EntryPoint} {k : Key}
    (ht : l.Takes (.report (.begin e k)) l') : Closes (some (e.site k)) l' l := by
  intro s
  cases ht with
  | begin e k hp =>
      rw [Ledger.phase, Ledger.phase, phase_insert]
      split_ifs with hs
      · simp [hs, show l.phases.findD (e.site k) .untouched ≠ .compiling from hp]
      · simp [Ne.symm hs, Ledger.phase]

theorem closes_forget (l : Ledger) (h : Handle) : Closes none l (l.forget h) := by
  unfold forget
  cases hr : l.retire? h with
  | none => exact Closes.refl l
  | some l' =>
      have ht := takes_retire hr
      exact ht.closes fun e k he => by cases he

theorem closes_foldl_forget (hs : List Handle) (l : Ledger) : Closes none l (hs.foldl forget l) := by
  induction hs generalizing l with
  | nil => exact Closes.refl l
  | cons h hs ih => exact (closes_forget l h).behind (ih (l.forget h))

theorem Takes.loops_eq_none (ht : l.Takes a l') (hh : l.loops.find? h = none)
    (ha : a.compiled? ≠ some h) : l'.loops.find? h = none := by
  rw [Option.eq_none_iff_forall_ne_some] at hh ⊢
  intro s hs
  rcases ht.loop_known_iff.1 ⟨s, hs⟩ with hc | ⟨⟨s', hs'⟩, -⟩
  · exact ha hc
  · exact hh s' hs'

theorem Takes.compiling_of_begin {e : EntryPoint} {k : Key}
    (ht : l.Takes (.report (.begin e k)) l') : l'.phase (e.site k) = .compiling := by
  cases ht with
  | begin e k hp =>
      rw [Ledger.phase, phase_insert, if_pos rfl]

theorem Takes.settled_of_loop? (ht : l.Takes a l') (ha : a.loop? = some (h, s)) :
    Settled (l'.phase s) := by
  cases ht with
  | loop e k j ops kind address length hp hn =>
      obtain ⟨rfl, rfl⟩ := Prod.mk.inj (Option.some.inj ha)
      rw [Ledger.phase, phase_insert, if_pos rfl]
      exact ⟨by simp, by simp, by simp⟩
  | _ => cases ha

structure Keeps (l l' : Ledger) : Prop where
  settled : ∀ s, Settled (l.phase s) → Settled (l'.phase s)
  compiling : ∀ s, l.phase s = .compiling → l'.phase s = .compiling
  loops : ∀ h, l.loops.find? h = none → l'.loops.find? h = none
  forced : l'.forced = l.forced

theorem Keeps.refl (l : Ledger) : l.Keeps l := ⟨fun _ hs => hs, fun _ hs => hs, fun _ hh => hh, rfl⟩

theorem Keeps.trans (h : l.Keeps l') (h' : l'.Keeps l'') : l.Keeps l'' :=
  ⟨fun s hs => h'.settled s (h.settled s hs), fun s hs => h'.compiling s (h.compiling s hs),
    fun j hj => h'.loops j (h.loops j hj), h'.forced.trans h.forced⟩

theorem keeps_forget (l : Ledger) (h : Handle) : l.Keeps (l.forget h) := by
  unfold forget
  cases hr : l.retire? h with
  | none => exact Keeps.refl l
  | some l' =>
      have ht := takes_retire hr
      refine ⟨fun s hs => ht.settled hs ?_, fun s hs => ht.compiling hs,
        fun j hj => ht.loops_eq_none hj ?_, ht.forced_eq⟩
      · intro e k he
        cases he
      · intro he
        cases he

theorem keeps_foldl_forget (hs : List Handle) (l : Ledger) : l.Keeps (hs.foldl forget l) := by
  induction hs generalizing l with
  | nil => exact Keeps.refl l
  | cons h hs ih => exact (keeps_forget l h).trans (ih (l.forget h))

end Ledger

end Lifecycle

namespace Tracer

variable {g : Settings} {n : Nat} {e : EntryPoint} {t t' : Tracer} {m m' : Mode} {k : Key}
  {r : Report} {v : Version} {l : Location} {value : Int} {i : Option Invalidation}

/-! ## Behind a report -/

structure Told (r : Report) (t t' : Tracer) : Prop extends SameCode t t' where
  shapes : t'.shapes = t.shapes
  monitor : t'.monitor = ((Act.report r).perform (t.shapes, t.monitor)).2

theorem report_told (hr : r.Accepted t.shapes) :
    Ends (fun _ t' => Told r t t' ∧ t.monitor.ledger.Takes (.report r) t'.monitor.ledger)
      (fun _ t' => Told r t t') (report r t) := by
  have hn : ((t.note (t.monitor.narrate t.shapes r)).shapes,
      (t.note (t.monitor.narrate t.shapes r)).monitor) = (t.shapes, t.monitor) := rfl
  have hc := Report.check_of_accepted hr
  rw [report_eq]
  unfold onMonitor
  rw [hn]
  cases hl : r.step t.monitor.ledger with
  | error f =>
      have ht : Monitor.take r (t.shapes, t.monitor) = .error f (t.shapes, t.monitor) := by
        rw [Monitor.take_eq]
        simp only [hc, hl]
      rw [ht]
      exact ⟨⟨rfl, rfl, rfl⟩, rfl, by rw [Act.perform, ht]⟩
  | ok l =>
      have hends := Monitor.take_ends (s := (t.shapes, t.monitor)) hr hl
      cases ht : Monitor.take r (t.shapes, t.monitor) with
      | ok _ s =>
          rw [ht] at hends
          obtain ⟨hs, hledger, -⟩ := hends
          refine ⟨⟨⟨rfl, rfl, rfl⟩, hs, by rw [Act.perform, ht]⟩, ?_⟩
          dsimp only
          rw [hledger]
          exact Ledger.takes_report hl
      | error f s =>
          rw [ht] at hends
          exact ⟨⟨rfl, rfl, rfl⟩, hends.2.2.1, by rw [Act.perform, ht]⟩

namespace Told

theorem takes_or_same (ht : Told r t t') :
    t.monitor.ledger.Takes (.report r) t'.monitor.ledger ∨
      t'.monitor.ledger = t.monitor.ledger := by
  rw [ht.monitor]
  by_cases hr : (Act.report r).Taken (t.shapes, t.monitor) = true
  · exact Or.inl (takes_of_taken hr)
  · exact Or.inr (congrArg Monitor.ledger (perform_of_not_taken hr))

theorem takes {ledger : Ledger} (ht : Told r t t') (hr : r.Accepted t.shapes)
    (hl : r.step t.monitor.ledger = .ok ledger) :
    t.monitor.ledger.Takes (.report r) t'.monitor.ledger := by
  rw [ht.monitor]
  have hc : ∃ shapes, r.check t.shapes = .ok shapes := ⟨t.shapes, Report.check_of_accepted hr⟩
  exact takes_of_taken (s := (t.shapes, t.monitor)) (taken_report_iff.2 ⟨hc, ledger, hl⟩)

end Told

/-! ## What the tracer relies on -/

/-- The tracer `t` has the settings `g` and relies on nothing that may fail. It has given up `n`
traces for a write. -/
structure Ready (g : Settings) (n : Nat) (t : Tracer) : Prop where
  sound : t.cache.Sound
  settled : ∀ s h, t.cache.loop? s = some h → Ledger.Settled (t.monitor.ledger.phase s)
  unannounced : ∀ h : Handle, t.cache.next ≤ h.number → t.monitor.ledger.loops.find? h = none
  forced : t.monitor.ledger.forced = n
  settings : t.settings = g

structure Assumes (t : Tracer) (v : Version) : Prop where
  current : t.cache.versions.IsCurrent v
  quasi : t.heap.isQuasi v.location = .ok true
  folds : t.settings.foldFields = true

structure Fit (g : Settings) (n : Nat) (e : EntryPoint) (t : Tracer) (m : Mode) : Prop
    extends Ready g n t where
  attempt : ∀ s, m.attempt? e = some s → t.monitor.ledger.phase s = .compiling
  fits : m.Fits e t.shapes t.cache t.monitor.ledger

/-- The tracer and the mode are ready, and what the open trace assumes is so. -/
structure Poised (g : Settings) (n : Nat) (e : EntryPoint) (t : Tracer) (m : Mode) : Prop
    extends Fit g n e t m where
  assumes : ∀ v, m.Guards v → t.Assumes v

namespace Ready

theorem new (g : Settings) : Ready g 0 { settings := g } where
  sound := Cache.sound_empty 0
  settled := fun s h hl => by cases hl
  unannounced := fun _ _ => rfl
  forced := rfl
  settings := rfl

theorem move (h : t.Ready g n) (hs : t'.cache.Sound)
    (hloop : ∀ s j, t'.cache.loop? s = some j → t.cache.loop? s = some j)
    (hn : t.cache.next ≤ t'.cache.next) (hl : t.monitor.ledger.Keeps t'.monitor.ledger)
    (hg : t'.settings = t.settings) : t'.Ready g n where
  sound := hs
  settled := fun s j hj => hl.settled s (h.settled s j (hloop s j hj))
  unannounced := fun j hj => hl.loops j (h.unannounced j (hn.trans hj))
  forced := hl.forced.trans h.forced
  settings := hg.trans h.settings

theorem sameCode (h : t.Ready g n) (ht : t.SameCode t')
    (hl : t.monitor.ledger.Keeps t'.monitor.ledger) : t'.Ready g n := by
  refine h.move ?_ (fun s j hj => ?_) ?_ hl ht.settings <;> rw [ht.cache] at *
  · exact h.sound
  · exact hj

/-- A step of the ledger, with which the cache may have gained the loop that it announces. -/
theorem takes (h : t.Ready g n) (ht : t.monitor.ledger.Takes (.report r) t'.monitor.ledger)
    (hs : t'.cache.Sound) (hn : t.cache.next ≤ t'.cache.next) (hg : t'.settings = t.settings)
    (hloop : ∀ s j, t'.cache.loop? s = some j →
      t.cache.loop? s = some j ∨ (Act.report r).loop? = some (j, s))
    (hbegin : ∀ e k, r = .begin e k → t.cache.loop? (e.site k) = none)
    (hnew : ∀ j, (Act.report r).compiled? = some j → j.number < t'.cache.next) :
    t'.Ready g (n + (Act.report r).forced) where
  sound := hs
  settled := fun s j hj => by
    rcases hloop s j hj with hold | hannounced
    · refine ht.settled (h.settled s j hold) fun e k he hsite => ?_
      obtain rfl := Act.report.inj he
      rw [hsite, hbegin e k rfl] at hold
      cases hold
    · exact ht.settled_of_loop? hannounced
  unannounced := fun j hj => by
    refine ht.loops_eq_none (h.unannounced j (hn.trans hj)) fun hc => ?_
    exact absurd (hnew j hc) (Nat.not_lt.2 hj)
  forced := by rw [ht.forced_eq, h.forced]
  settings := hg.trans h.settings

theorem turn (h : t.Ready g n) (ha : m.attempt? e = none)
    (hf : m.Fits e t.shapes t.cache t.monitor.ledger) (hv : ∀ v, ¬ m.Guards v) :
    t.Poised g n e m :=
  { h with
    attempt := fun s hs => by
      rw [ha] at hs
      cases hs
    fits := hf
    assumes := fun v hm => absurd hm (hv v) }

theorem poised (h : t.Ready g n) (e : EntryPoint) : t.Poised g n e .interpreting :=
  h.turn rfl trivial (Mode.not_guards_of_recording? rfl)

end Ready

theorem Assumes.sameCode (h : t.Assumes v) (ht : t.SameCode t') : t'.Assumes v := by
  obtain ⟨hheap, hcache, hsettings⟩ := ht
  exact ⟨by rw [hcache]; exact h.current, by rw [hheap]; exact h.quasi,
    by rw [hsettings]; exact h.folds⟩

namespace Fit

theorem later (h : t.Fit g n e m) (hr : t'.Ready g n)
    (hs : ∀ k, t.shapes.Accepts e k → t'.shapes.Accepts e k) (hc : t.cache.Later t'.cache)
    (hl : t.monitor.ledger.Keeps t'.monitor.ledger) : t'.Fit g n e m :=
  { hr with
    attempt := fun s hs => hl.compiling s (h.attempt s hs)
    fits := h.fits.later hs hc hl.settled }

theorem note (h : t.Fit g n e m) (es : List Entry) : (t.note es).Fit g n e m :=
  h.later (h.toReady.sameCode ⟨rfl, rfl, rfl⟩ (Ledger.Keeps.refl _)) (fun _ hk => hk)
    (Cache.Later.refl _) (Ledger.Keeps.refl _)

theorem forgetAll {gone : List Handle} (h : t.Fit g n e m) (hw : t.cache.Without t'.cache gone)
    (hm : t'.monitor = t.monitor) (hs : t'.shapes = t.shapes) (hg : t'.settings = t.settings) :
    (t'.forgetAll gone).Fit g n e m := by
  obtain ⟨hcode, hshapes, hledger, -⟩ := forgetAll_reported t' gone
  have hl : t.monitor.ledger.Keeps (t'.forgetAll gone).monitor.ledger := by
    rw [hledger, hm]
    exact Ledger.keeps_foldl_forget gone _
  have hready : (t'.forgetAll gone).Ready g n := by
    refine h.toReady.move ?_ (fun s j hj => ?_) ?_ hl (hcode.settings.trans hg)
    · rw [hcode.cache]
      exact hw.sound h.sound
    · rw [hcode.cache] at hj
      exact ((hw.loops s j).1 hj).1
    · rw [hcode.cache, hw.next]
  refine h.later hready (fun k hk => ?_) ?_ hl
  · rw [hshapes, hs]
    exact hk
  · rw [hcode.cache]
    exact hw.later

/-- The open trace can be given up. -/
theorem abort_accepted (h : t.Fit g n e m) {rec : Recording} (hr : m.recording? = some rec)
    (cause : Abort) :
    t.shapes.Accepts e rec.key ∧ ∃ l, t.monitor.ledger.abort cause e rec.key = .ok l := by
  cases m with
  | tracingLoop r' =>
      obtain rfl := Option.some.inj hr
      exact ⟨h.fits, _, Ledger.abort_eq_ok_iff.2 (Or.inl ⟨h.attempt _ rfl, rfl⟩)⟩
  | tracingBridge p i r' =>
      obtain rfl := Option.some.inj hr
      obtain ⟨hk, hset, -⟩ := h.fits
      exact ⟨hk, _, Ledger.abort_eq_ok_iff.2 (Or.inr ⟨hset, rfl⟩)⟩
  | _ => cases hr

end Fit

namespace Poised

theorem sameCode (h : t.Poised g n e m) (ht : t.SameCode t')
    (hs : ∀ k, t.shapes.Accepts e k → t'.shapes.Accepts e k)
    (hl : t.monitor.ledger.Keeps t'.monitor.ledger) : t'.Poised g n e m := by
  have hc : t.cache.Later t'.cache := by
    rw [ht.cache]
    exact Cache.Later.refl _
  exact { h.toFit.later (h.toReady.sameCode ht hl) hs hc hl with
    assumes := fun v hv => (h.assumes v hv).sameCode ht }

theorem modifyRecording (h : t.Poised g n e m) {f : Recording → Recording}
    (hk : ∀ r, (f r).key = r.key) (hv : ∀ v, (m.modifyRecording f).Guards v → t.Assumes v) :
    t.Poised g n e (m.modifyRecording f) :=
  { h.toReady with
    attempt := fun s hs => by
      rw [Mode.attempt?_modifyRecording e hk] at hs
      exact h.attempt s hs
    fits := h.fits.modifyRecording hk
    assumes := hv }

theorem firstStale?_eq_none (h : t.Poised g n e m) {rec : Recording}
    (hr : m.recording? = some rec) : rec.guards.firstStale? t.cache.versions = none :=
  (Cache.firstStale?_eq_none_iff _ _).2 fun v hv => (h.assumes v ⟨rec, hr, hv⟩).current

end Poised

/-! ## Reports -/

/-- A report that gives up no trace for a write. -/
theorem ready_report (h : t.Ready g n) (hr : r.Accepted t.shapes) (hf : (Act.report r).forced = 0)
    (hbegin : ∀ e k, r = .begin e k → t.cache.loop? (e.site k) = none)
    (hnew : ∀ j, (Act.report r).compiled? = some j → j.number < t.cache.next) :
    Ends (fun _ t' => t'.Ready g n ∧ Told r t t' ∧
        t.monitor.ledger.Takes (.report r) t'.monitor.ledger)
      (fun _ t' => t'.Ready g n ∧ Told r t t') (report r t) := by
  have hready : ∀ t', Told r t t' → t'.Ready g n := by
    intro t' ht
    rcases ht.takes_or_same with htakes | hsame
    · have hready := h.takes htakes (ht.cache ▸ h.sound) (ht.cache ▸ le_rfl) ht.settings
        (fun s j hj => Or.inl (ht.cache ▸ hj)) hbegin (ht.cache ▸ hnew)
      rw [hf] at hready
      exact hready
    · refine h.sameCode ht.toSameCode ?_
      rw [hsame]
      exact Ledger.Keeps.refl _
  exact (report_told hr).imp (fun _ t' ht => ⟨hready t' ht.1, ht⟩) fun _ t' ht => ⟨hready t' ht, ht⟩

/-- Giving up the open trace is counted, also if an observer fails then. -/
theorem ready_abort (h : t.Fit g n e m) {rec : Recording} (hr : m.recording? = some rec)
    (cause : Abort) :
    Ends (fun _ t' => t'.Ready g (n + (Act.report (.abort cause e rec.key)).forced) ∧
        Told (.abort cause e rec.key) t t')
      (fun _ t' => t'.Ready g (n + (Act.report (.abort cause e rec.key)).forced) ∧
        Told (.abort cause e rec.key) t t')
      (report (.abort cause e rec.key) t) := by
  obtain ⟨hk, l, hl⟩ := h.abort_accepted hr cause
  have hready : ∀ t', Told (.abort cause e rec.key) t t' →
      t'.Ready g (n + (Act.report (.abort cause e rec.key)).forced) ∧
        Told (.abort cause e rec.key) t t' := by
    intro t' ht
    refine ⟨h.toReady.takes (ht.takes hk hl) (ht.cache ▸ h.sound) (ht.cache ▸ le_rfl) ht.settings
      (fun s j hj => Or.inl (ht.cache ▸ hj)) (fun _ _ he => ?_) fun _ hc => ?_, ht⟩
    · cases he
    · cases hc
  have hk : (Report.abort cause e rec.key).Accepted t.shapes := hk
  exact (report_told hk).imp (fun _ t' ht => hready t' ht.1) fun _ t' ht => hready t' ht

theorem Fit.closes (h : t.Fit g n e m) {rec : Recording} (hr : m.recording? = some rec)
    {cause : Abort} (ht : Told (.abort cause e rec.key) t t') :
    t.monitor.ledger.Closes (m.attempt? e) t'.monitor.ledger := by
  obtain ⟨hk, l, hl⟩ := h.abort_accepted hr cause
  have hcloses := (ht.takes hk hl).closes fun _ _ he => by cases he
  cases m with
  | tracingLoop r' =>
      obtain rfl := Option.some.inj hr
      exact hcloses
  | tracingBridge p i r' =>
      -- the site has a loop, so the abort of its bridge ends no attempt
      obtain rfl := Option.some.inj hr
      obtain ⟨-, hset, -⟩ := h.fits
      intro s
      rw [hcloses s, and_congr_right_iff]
      intro hs
      simp only [Act.ended?, Mode.attempt?, ne_eq, Option.some.injEq, reduceCtorEq,
        not_false_eq_true, iff_true]
      rintro rfl
      exact hset.2.2 hs
  | _ => cases hr

theorem ready_leaveLoop (h : t.Fit g n e m) :
    Ends (fun _ t' => t'.Ready g n) (fun _ t' => t'.Ready g n) (leaveLoop e m t) := by
  cases m with
  | tracingLoop r =>
      exact (ready_abort h rfl .badLoop).imp (fun _ _ ht => ht.1) fun _ _ ht => ht.1
  | tracingBridge p i r =>
      exact (ready_abort h rfl .bridge).imp (fun _ _ ht => ht.1) fun _ _ ht => ht.1
  | _ => exact h.toReady

/-! ## Counting and entering -/

/-- Nobody is told that an attempt begins, so it fails just if another one is in progress. -/
theorem report_begin_eq (hk : t.shapes.Accepts e k) :
    report (.begin e k) t =
      let t' := t.note (t.monitor.narrate t.shapes (.begin e k))
      match t.monitor.ledger.begin e k with
      | .ok l => .ok () { t' with monitor := { t.monitor with ledger := l } }
      | .error err => .error err t' := by
  have hk : t.shapes.check e k = .ok t.shapes := hk
  rw [report_eq]
  unfold onMonitor
  have hn : ((t.note (t.monitor.narrate t.shapes (.begin e k))).shapes,
      (t.note (t.monitor.narrate t.shapes (.begin e k))).monitor) = (t.shapes, t.monitor) := rfl
  rw [hn, Monitor.take_eq]
  simp only [Report.check, Report.step, hk]
  cases t.monitor.ledger.begin e k <;> rfl

structure Counted (s : Site) (n : Nat) (t t' : Tracer) : Prop extends SameCode t t' where
  shapes : t'.shapes = t.shapes
  hits : t'.hits = t.hits.insert s n
  failures : t'.failures = t.failures

/-- A pass is counted, or the count begins anew and an attempt begins, or is refused. -/
theorem countHit_cases (hk : t.shapes.Accepts e k) :
    (∃ t', countHit e k t = .ok .interpreting t' ∧
      t.hits.findD (e.site k) 0 + 1 < t.settings.threshold ∧
      Counted (e.site k) (t.hits.findD (e.site k) 0 + 1) t t' ∧ t'.monitor = t.monitor) ∨
    ∃ t', (countHit e k t = .error (.attemptInProgress e k) t' ∧
          t.monitor.ledger.phase (e.site k) = .compiling ∧ t'.monitor = t.monitor ∨
        countHit e k t = .ok (.tracingLoop { key := k, ops := [.label] }) t' ∧
          t.monitor.ledger.Takes (.report (.begin e k)) t'.monitor.ledger) ∧
      t.settings.threshold ≤ t.hits.findD (e.site k) 0 + 1 ∧ Counted (e.site k) 0 t t' := by
  rw [countHit_eq]
  dsimp only
  by_cases hlt : t.hits.findD (e.site k) 0 + 1 < t.settings.threshold
  · rw [if_pos hlt]
    exact Or.inl ⟨_, rfl, hlt, ⟨⟨rfl, rfl, rfl⟩, rfl, rfl, rfl⟩, rfl⟩
  · rw [if_neg hlt]
    have hb := report_begin_eq
      (t := note [.loopTraced e k] { t with hits := t.hits.insert (e.site k) 0 }) hk
    refine Or.inr ?_
    simp only [bind, EStateM.bind, hb]
    by_cases hp : t.monitor.ledger.phase (e.site k) = .compiling
    · have hl : t.monitor.ledger.begin e k = .error (.attemptInProgress e k) := by
        simp [Ledger.begin, hp]
      simp only [note, hl]
      exact ⟨_, Or.inl ⟨rfl, hp, rfl⟩, Nat.le_of_not_lt hlt, ⟨⟨rfl, rfl, rfl⟩, rfl, rfl, rfl⟩⟩
    · have hl := Ledger.begin_eq_ok_iff.2 ⟨hp, rfl⟩
      have htakes : t.monitor.ledger.Takes (.report (.begin e k)) _ := Ledger.takes_report hl
      simp only [note, hl]
      exact ⟨_, Or.inr ⟨rfl, htakes⟩, Nat.le_of_not_lt hlt, ⟨⟨rfl, rfl, rfl⟩, rfl, rfl, rfl⟩⟩

/-- The attempt to trace a loop may be refused, if an earlier one was never ended. -/
theorem poised_countHit (h : t.Ready g n) (hk : t.shapes.Accepts e k)
    (hl : t.cache.loop? (e.site k) = none) :
    Ends (fun m' t' => t'.Poised g n e m') (fun _ t' => t'.Ready g n) (countHit e k t) := by
  have hsame : ∀ {s i t'}, Counted s i t t' → t'.monitor = t.monitor → t'.Ready g n := by
    intro s i t' ht hm
    refine h.sameCode ht.toSameCode ?_
    rw [hm]
    exact Ledger.Keeps.refl _
  rcases countHit_cases hk with ⟨t', hx, -, ht, hm⟩ |
    ⟨t', ⟨hx, -, hm⟩ | ⟨hx, htakes⟩, -, ht⟩ <;> rw [hx]
  · exact (hsame ht hm).poised e
  · exact hsame ht hm
  · have hready : t'.Ready g n := by
      refine h.takes htakes (ht.cache ▸ h.sound) (ht.cache ▸ le_rfl) ht.settings
        (fun s j hj => Or.inl (ht.cache ▸ hj)) (fun e' k' he => ?_) fun j hj => ?_
      · obtain ⟨rfl, rfl⟩ := Report.begin.inj he
        exact hl
      · cases hj
    refine { hready with
      attempt := fun s hs => ?_
      fits := ht.shapes.symm ▸ hk
      assumes := fun v hv => absurd hv (Mode.not_guards_of_empty rfl rfl v) }
    obtain rfl := Option.some.inj hs
    exact htakes.compiling_of_begin

/-- A live artifact is entered, or it is retired, and is then to be forgotten. -/
theorem fit_enter (h : t.Fit g n e m) {j : Handle} {a : Artifact}
    (ha : t.cache.get? j = some a) :
    (t.cache.enter j).2 = .entered ∧ (t.enter j).1.Fit g n e m ∨
      ∃ l, (t.cache.enter j).2 = .guardFailed l (t.cache.retire j).2 ∧
        ∀ es, let t' := ((t.enter j).1.note es).forgetAll (t.cache.retire j).2
          t'.Fit g n e m ∧ t'.shapes = t.shapes ∧ t'.cache = (t.cache.retire j).1 := by
  cases hg : a.guards.firstStale? t.cache.versions with
  | none =>
      have he := Cache.enter_of_current ha hg
      refine Or.inl ⟨congrArg Prod.snd he, ?_⟩
      have hready : (t.enter j).1.Ready g n := by
        refine h.toReady.move (h.sound.enter j) (fun s i hi => ?_)
          (Cache.later_enter h.sound j).next (Ledger.Keeps.refl _) rfl
        rw [enter_eq, he] at hi
        exact hi
      exact h.later hready (fun _ hk => hk) (Cache.later_enter h.sound j) (Ledger.Keeps.refl _)
  | some v =>
      have he := Cache.enter_of_stale ha hg
      have hw := Cache.without_retire h.sound j
      refine Or.inr ⟨v.location, congrArg Prod.snd he, fun es => ?_⟩
      have hc : ((t.enter j).1.note es).cache = (t.cache.retire j).1 := congrArg Prod.fst he
      have hf := forgetAll_reported ((t.enter j).1.note es) (t.cache.retire j).2
      rw [← hc] at hw
      exact ⟨h.forgetAll hw rfl rfl rfl, hf.shapes, hf.cache.trans hc⟩

theorem poised_enterOrCount (h : t.Ready g n) (hk : t.shapes.Accepts e k) :
    Ends (fun m' t' => t'.Poised g n e m') (fun _ t' => t'.Ready g n) (enterOrCount e k t) := by
  rw [enterOrCount_eq]
  split_ifs
  · cases hl : t.cache.loop? (e.site k) with
    | none => exact poised_countHit h hk hl
    | some j =>
        obtain ⟨a, haj, hkind, hsite⟩ := (h.sound.loop_iff _ _).1 hl
        dsimp only
        rcases fit_enter (h.poised e).toFit haj with ⟨hin, hin'⟩ | ⟨l, hout, hout'⟩
        · obtain ⟨b, hb, -, hc⟩ := Cache.of_enter_entered hin
          obtain rfl := Option.some.inj (haj.symm.trans hb)
          rw [hin]
          refine hin'.toReady.turn rfl ⟨?_, fun a' ha' => ?_⟩ (Mode.not_guards_of_recording? rfl)
          · exact (h.sound.handle j a haj).2.trans_le (Cache.later_enter h.sound j).next
          · have ha' : (t.cache.enter j).1.get? j = some a' := ha'
            rw [hc] at ha'
            obtain ⟨b, n, hb, rfl⟩ := Cache.of_get?_entered ha'
            obtain rfl := Option.some.inj (haj.symm.trans hb)
            refine ⟨hkind, ?_, ?_⟩
            · rw [hsite]
              rfl
            · rw [hsite]
              exact hk
        · rw [hout]
          obtain ⟨ho, hshapes, hc⟩ := hout' [.loopRefused j l]
          refine poised_countHit ho.toReady ?_ ?_
          · rw [hshapes]
            exact hk
          · rw [hc]
            exact Cache.loop?_retire h.sound hl
  · exact h.poised e

theorem poised_countFailure {j : Handle} {expected : List Bool} {b : Nat}
    (h : t.Fit g n e (.running j expected b)) (i : Nat) :
    (t.countFailure j i).1.Poised g n e (t.countFailure j i).2 := by
  unfold countFailure
  cases ha : t.cache.get? j with
  | none => exact h.toReady.poised e
  | some a =>
      obtain ⟨hj, hlive⟩ := h.fits
      obtain ⟨hkind, hentry, hkey⟩ := hlive a ha
      have hsite : e.site a.site.key = a.site := by rw [EntryPoint.site, ← hentry]
      have hset := h.settled a.site j ((h.sound.loop_iff a.site j).2 ⟨a, ha, hkind, rfl⟩)
      dsimp only
      split_ifs
      · apply Ready.poised
        exact h.toReady.sameCode ⟨rfl, rfl, rfl⟩ (Ledger.Keeps.refl _)
      · refine Ready.turn ?_ rfl ?_ ?_
        · exact h.toReady.sameCode ⟨rfl, rfl, rfl⟩ (Ledger.Keeps.refl _)
        · refine ⟨hkey, ?_, hj, fun b hb => ?_⟩
          · change Ledger.Settled (t.monitor.ledger.phase (e.site a.site.key))
            rw [hsite]
            exact hset
          · obtain ⟨hbkind, hbentry, -⟩ := hlive b hb
            exact ⟨hbkind, hbentry⟩
        · exact Mode.not_guards_of_empty rfl rfl

theorem poised_guardFailed {j : Handle} {expected : List Bool} {b : Nat}
    (h : t.Fit g n e (.running j expected b)) (i : Nat) :
    (t.guardFailed j i).1.Poised g n e (t.guardFailed j i).2 := by
  rw [guardFailed_eq]
  cases hb : t.cache.bridge? j i with
  | none => exact poised_countFailure h i
  | some b =>
      obtain ⟨a, ha, hab⟩ := Cache.bridge?_eq_some hb
      obtain ⟨-, ba, hba, -⟩ := h.sound.bridge j a i b ha hab
      dsimp only
      rcases fit_enter h hba with ⟨hin, hin'⟩ | ⟨l, hout, hout'⟩
      · rw [hin]
        exact hin'.toReady.turn rfl trivial (Mode.not_guards_of_recording? rfl)
      · rw [hout]
        exact poised_countFailure (hout' []).1 i

/-! ## Closing traces -/

theorem ready_closeLoop {rec : Recording} (h : t.Poised g n e (.tracingLoop rec)) :
    Ends
      (fun _ t' => t'.Ready g n ∧ t'.shapes = t.shapes ∧
        t.monitor.ledger.Closes (some (e.site rec.key)) t'.monitor.ledger)
      (fun _ t' => t'.Ready g n ∧
        t.monitor.ledger.Closes (some (e.site rec.key)) t'.monitor.ledger)
      (closeLoop e rec t) := by
  have hk : t.shapes.check e rec.key = .ok t.shapes := h.fits
  have hphase := h.attempt _ rfl
  have hfree : t.cache.loop? (e.site rec.key) = none := by
    rw [Option.eq_none_iff_forall_ne_some]
    exact fun j hj => (h.settled _ j hj).2.2 hphase
  have hsound := h.sound.addLoop (e.site rec.key) rec.guards (rec.ops ++ [.jump])
  rw [closeLoop_eq, installLoop_eq, hk]
  dsimp only
  rw [Cache.addLoop_of_current (h.firstStale?_eq_none rfl),
    Cache.vacate_of_none (show (t.cache.register rec.guards).1.loop? _ = none from hfree)] at *
  dsimp only at hsound ⊢
  have hold := h.unannounced ⟨t.cache.next⟩ le_rfl
  have hready : ∀ t₁ t',
      Told (.loop e rec.key ⟨t.cache.next⟩ (rec.ops ++ [.jump]) .loop 0 0) t₁ t' →
      t₁.monitor.ledger = t.monitor.ledger → t₁.shapes = t.shapes → t₁.settings = t.settings →
      t₁.cache = (t.cache.register rec.guards).1.putLoop ⟨t.cache.next⟩ (e.site rec.key)
        rec.guards (rec.ops ++ [.jump]) →
      t'.Ready g n ∧ t'.shapes = t.shapes ∧
        t.monitor.ledger.Closes (some (e.site rec.key)) t'.monitor.ledger := by
    intro t₁ t' ht hledger hshapes hsettings hcache
    have haccepted : t₁.shapes.Accepts e rec.key := hshapes ▸ hk
    have htakes := ht.takes haccepted
      (Ledger.announceLoop_eq_ok_iff.2 ⟨hledger ▸ hphase, hledger ▸ hold, rfl⟩)
    rw [hledger] at htakes
    have hcache' := ht.cache.trans hcache
    refine ⟨h.toReady.takes htakes ?_ ?_ (ht.settings.trans hsettings) (fun s j hj => ?_)
      (fun _ _ he => ?_) fun j hj => ?_, ht.shapes.trans hshapes, htakes.closes fun _ _ he => ?_⟩
    · rw [hcache']
      exact hsound
    · rw [hcache']
      exact Nat.le_succ _
    · rw [hcache', Cache.loop?_putLoop] at hj
      split_ifs at hj with hs
      · exact Or.inr (by rw [hs, ← Option.some.inj hj]; rfl)
      · exact Or.inl hj
    · cases he
    · rw [hcache', ← Option.some.inj hj]
      exact Nat.lt_succ_self _
    · cases he
  refine (report_told ?_).imp (fun _ t' ht => hready _ t' ht.1 rfl rfl rfl rfl) fun _ t' ht => ?_
  · exact hk
  · obtain ⟨hr, -, hcloses⟩ := hready _ t' ht rfl rfl rfl rfl
    exact ⟨hr, hcloses⟩

/-- A bridge whose loop is live still is installed. It is announced too, unless that is refused. -/
theorem ready_closeBridge {p : Handle} {i : Nat} {rec : Recording}
    (h : t.Poised g n e (.tracingBridge p i rec)) :
    Ends
      (fun _ t' => t'.Ready g n ∧ t'.shapes = t.shapes ∧
        t.monitor.ledger.Closes none t'.monitor.ledger)
      (fun _ t' => t'.Ready g n ∧ t.monitor.ledger.Closes none t'.monitor.ledger)
      (closeBridge e p i rec t) := by
  rw [closeBridge_eq]
  split_ifs with hlive
  · obtain ⟨a, ha⟩ := (Cache.isLive_iff _ _).1 hlive
    obtain ⟨-, -, -, hparent⟩ := h.fits
    have hloop : a.IsLoop := (hparent a ha).1
    have hsound := h.sound.addBridge ha (hparent a ha).1 i rec.guards (rec.ops ++ [.jump])
    rw [installBridge_eq, ha]
    dsimp only
    rw [if_pos hloop]
    rw [Cache.addBridge_of_current (h.firstStale?_eq_none rfl)] at hsound ⊢
    dsimp only at hsound ⊢
    -- the announcement may be refused, and then the ledger is as it was
    have hcloses : ∀ {t₁ t₂ : Tracer} {b : Handle},
        Told (.bridge e p b i (rec.ops ++ [.jump]) 0 0) t₁ t₂ → t₁.monitor = t.monitor →
        t.monitor.ledger.Closes none t₂.monitor.ledger := by
      intro t₁ t₂ b ht hsame
      rw [← hsame]
      rcases ht.takes_or_same with htakes | hsame
      · exact htakes.closes fun _ _ he => by cases he
      · rw [hsame]
        exact Ledger.Closes.refl _
    refine (ready_report ?_ ?_ rfl ?_ ?_).imp (fun _ t' ht => ?_)
      fun _ _ ht => ⟨ht.1, hcloses ht.2 rfl⟩
    · exact h.toReady.move hsound (fun _ _ hj => hj) (Nat.le_succ _) (Ledger.Keeps.refl _) rfl
    · trivial
    · intro _ _ he
      cases he
    · intro _ hj
      cases hj
    · exact ⟨ht.1, ht.2.1.shapes, hcloses ht.2.1 rfl⟩
  · exact (ready_abort h.toFit rfl .bridge).imp
      (fun _ _ ht => ⟨ht.1, ht.2.shapes, h.toFit.closes rfl ht.2⟩)
      fun _ _ ht => ⟨ht.1, h.toFit.closes rfl ht.2⟩

theorem poised_mergePoint (h : t.Poised g n e m) (hk : t.shapes.Accepts e k) :
    Ends (fun m' t' => t'.Poised g n e m') (fun _ t' => t'.Ready g n) (mergePoint e k m t) := by
  -- behind a closed trace the pass goes on as if there had been none
  have hnext : ∀ t', t'.Ready g n ∧ t'.shapes = t.shapes →
      Ends (fun m' t' => t'.Poised g n e m') (fun _ t' => t'.Ready g n) (enterOrCount e k t') := by
    rintro t' ⟨hready, hshapes⟩
    refine poised_enterOrCount hready ?_
    rw [hshapes]
    exact hk
  refine ends_mergePoint ?_ ?_ (fun _ _ _ => h) fun _ => poised_enterOrCount h.toReady hk
  · rintro rec rfl -
    exact Ends.bind ((ready_closeLoop h).imp (fun _ t' ht => hnext t' ⟨ht.1, ht.2.1⟩)
      fun _ _ ht => ht.1)
  · rintro p i rec rfl -
    exact Ends.bind ((ready_closeBridge h).imp (fun _ t' ht => hnext t' ⟨ht.1, ht.2.1⟩)
      fun _ _ ht => ht.1)

theorem poised_checkKey (h : t.Poised g n e m) (e' : EntryPoint) (k : Key) :
    Ends (fun _ t' => t'.Poised g n e m) (fun _ t' => t'.Poised g n e m)
      (onMonitor (Shapes.checkKey e' k) t) := by
  unfold onMonitor Shapes.checkKey
  cases hc : t.shapes.check e' k with
  | error f => exact h
  | ok shapes =>
      exact h.sameCode ⟨rfl, rfl, rfl⟩ (fun _ hk => hk.of_check hc) (Ledger.Keeps.refl _)

end Tracer

end HotLoop
