import HotLoop.Proofs.Beginnings
import HotLoop.Proofs.Bridges
import HotLoop.Proofs.Counts

/-!
# The books of a tracer

Code cache, ledger, failure counts and the open trace are kept apart from one another and have to
agree. `Move` is all that can happen to them in one stroke, and `Balanced` is the agreement: every
live bridge is known to its loop, ledger and cache tell the same live bridges, and the counters add
up. Each move keeps it.
-/

namespace HotLoop

open Code Journal Lifecycle Trace

structure Books where
  cache : Cache
  ledger : Ledger
  failures : FinMap (Handle × Nat) Nat
  /-- The traces begun. -/
  begun : Nat
  mode : Mode

def Tracer.books (t : Tracer) (m : Mode) : Books :=
  ⟨t.cache, t.monitor.ledger, t.failures, t.begun, m⟩

namespace Mode

def openTraces (m : Mode) : Nat := if m.recording?.isSome then 1 else 0

theorem openTraces_of_none {m : Mode} (hm : m.recording? = none) : m.openTraces = 0 := by
  rw [openTraces, hm]
  rfl

theorem openTraces_of_isSome {m : Mode} (hm : m.recording?.isSome = true) : m.openTraces = 1 := by
  rw [openTraces, if_pos hm]

theorem openTraces_modifyRecording (g : Recording → Recording) (m : Mode) :
    (m.modifyRecording g).openTraces = m.openTraces := by
  cases m <;> rfl

theorem recording?_of_artifact? {m : Mode} {h : Handle} (hm : m.artifact? = some h) :
    m.recording? = none := by
  cases m with
  | running j expected n => rfl
  | runningBridge b => rfl
  | _ => cases hm

theorem of_modifyRecording_eq {g : Recording → Recording} {m : Mode} {p : Handle} {i : Nat}
    {r : Recording} (h : m.modifyRecording g = .tracingBridge p i r) :
    ∃ r', m = .tracingBridge p i r' := by
  cases m with
  | tracingBridge q j r' =>
      cases h
      exact ⟨r', rfl⟩
  | _ => cases h

end Mode

namespace Books

def retire (b : Books) (hs : List Handle) : Books :=
  { b with
    cache := (b.cache.retireAll hs).1
    ledger := (b.cache.retireAll hs).2.foldl Ledger.forget b.ledger
    failures := b.failures.filterKeys fun k => decide (k.1 ∉ (b.cache.retireAll hs).2) }

inductive Move : Books → Books → Prop
  /-- Versions are allocated, revoked or depended on. -/
  | versions (b : Books) (t : Versions) (n : Nat) :
      Move b { b with cache := { b.cache with versions := t, next := n } }
  | enter (b : Books) (h : Handle) :
      Move b { b with
        cache := { b.cache with artifacts := b.cache.artifacts.modify h Artifact.entered } }
  | retire (b : Books) (hs : List Handle) : Move b (b.retire hs)
  /-- The mode changes, and no trace is open before or behind it. -/
  | turn (b : Books) (m : Mode) (hb : b.mode.recording? = none) (hm : m.recording? = none) :
      Move b { b with mode := m }
  | record (b : Books) (g : Recording → Recording) :
      Move b { b with mode := b.mode.modifyRecording g }
  | countFailure (b : Books) {h : Handle} {a : Artifact} (i n : Nat)
      (ha : b.cache.get? h = some a) (hk : a.kind = .loop) :
      Move b { b with failures := b.failures.insert (h, i) n }
  | beginLoop (b : Books) {e : EntryPoint} {k : Key} {l : Ledger} (r : Recording)
      (hb : b.mode.recording? = none) (hl : b.ledger.begin e k = .ok l) :
      Move b { b with ledger := l, begun := b.begun + 1, mode := .tracingLoop r }
  /-- A bridge is traced only for a guard that has none. -/
  | beginBridge (b : Books) {p : Handle} {i : Nat} (r : Recording) (hb : b.mode.recording? = none)
      (hv : ∀ j, ¬ b.cache.Knows p i j) :
      Move b { b with begun := b.begun + 1, mode := .tracingBridge p i r }
  | abort (b : Books) {cause : Abort} {e : EntryPoint} {k : Key} {l : Ledger}
      (hb : b.mode.recording?.isSome = true) (hl : b.ledger.abort cause e k = .ok l) :
      Move b { b with ledger := l, mode := .interpreting }
  | installLoop (b : Books) {e : EntryPoint} {k : Key} {l : Ledger} (g : Guards) (ops : List Op)
      (hb : b.mode.recording?.isSome = true)
      (hl : b.ledger.announceLoop e k ⟨b.cache.next⟩ = .ok l) :
      Move b { b with
        cache := (b.cache.register g).1.putLoop ⟨b.cache.next⟩ (e.site k) g ops
        ledger := l
        mode := .interpreting }
  | installBridge (b : Books) {e : EntryPoint} {p : Handle} {i : Nat} {r : Recording} {a : Artifact}
      {l : Ledger} (g : Guards) (ops : List Op) (hb : b.mode = .tracingBridge p i r)
      (ha : b.cache.get? p = some a) (hl : b.ledger.announceBridge e p ⟨b.cache.next⟩ = .ok l) :
      Move b { b with
        cache := (b.cache.register g).1.putBridge ⟨b.cache.next⟩ p a.site i g ops
        ledger := l
        mode := .interpreting }

structure Balanced (b : Books) : Prop where
  rooted : ∀ h p i, b.cache.HangsOff h p i → b.cache.Knows p i h
  /-- Nothing hangs off the guard that a bridge is traced for. -/
  vacant : ∀ p i r, b.mode = .tracingBridge p i r → ∀ h, ¬ b.cache.Knows p i h
  bridges : ∀ h p, b.ledger.bridges.find? h = some p ↔ ∃ i, b.cache.HangsOff h p i
  ledger : b.ledger.Balanced
  installed : b.cache.installed = b.ledger.tally.compiled
  failures : ∀ h i n, b.failures.find? (h, i) = some n →
    ∃ a, b.cache.get? h = some a ∧ a.kind = .loop
  begun : b.begun = b.ledger.tally.ended + b.mode.openTraces

namespace Balanced

variable {b : Books}

theorem versions (hb : b.Balanced) (t : Versions) (n : Nat) :
    Balanced { b with cache := { b.cache with versions := t, next := n } } :=
  ⟨hb.rooted, hb.vacant, hb.bridges, hb.ledger, hb.installed, hb.failures, hb.begun⟩

theorem enter (hb : b.Balanced) (h : Handle) :
    Balanced { b with
      cache := { b.cache with artifacts := b.cache.artifacts.modify h Artifact.entered } } where
  rooted := fun j p i hj => (Cache.knows_entered_iff h).2
    (hb.rooted j p i ((Cache.hangsOff_entered_iff h).1 hj))
  vacant := fun p i r hm j hj => hb.vacant p i r hm j ((Cache.knows_entered_iff h).1 hj)
  bridges := fun j p => by
    rw [hb.bridges]
    exact exists_congr fun i => (Cache.hangsOff_entered_iff h).symm
  ledger := hb.ledger
  installed := by
    rw [← hb.installed]
    exact congrArg (b.cache.retiredCount + ·) (FinMap.size_modify _ h _)
  failures := fun j i n hj => by
    obtain ⟨a, ha, hk⟩ := hb.failures j i n hj
    obtain ⟨m, ha'⟩ := Cache.get?_entered_of_some ha h
    exact ⟨_, ha', hk⟩
  begun := hb.begun

/-- Retired artifacts are gone from all books together. -/
theorem retire (hb : b.Balanced) (hc : b.cache.Sound) (hl : b.ledger.Sound) (hs : List Handle) :
    (b.retire hs).Balanced := by
  have hw := Cache.without_retireAll hs hc
  have hcounts := Ledger.counts_foldl_forget (b.cache.retireAll hs).2 hl
  obtain ⟨-, hbridges, -⟩ := Ledger.foldl_forget_spec (b.cache.retireAll hs).2 hl
  constructor
  case rooted =>
    intro h p i hh
    obtain ⟨hh, hm⟩ := hw.hangsOff_iff.1 hh
    exact (Cache.knows_retireAll_iff hc hs).2 ⟨hb.rooted h p i hh, hm⟩
  case vacant =>
    intro p i r hm h hk
    exact hb.vacant p i r hm h ((Cache.knows_retireAll_iff hc hs).1 hk).1
  case bridges =>
    intro h p
    have hgone : (∃ i, (b.cache.retireAll hs).1.HangsOff h p i) ↔
        (∃ i, b.cache.HangsOff h p i) ∧ h ∉ (b.cache.retireAll hs).2 := by
      simp only [hw.hangsOff_iff, exists_and_right]
    refine Iff.trans ?_ hgone.symm
    rw [← hb.bridges]
    change ((b.cache.retireAll hs).2.foldl Ledger.forget b.ledger).bridges.find? h = some p ↔ _
    rw [hbridges]
    split_ifs with hm <;> simp [hm]
  case ledger => exact hcounts.balanced hb.ledger
  case installed =>
    change (b.cache.retireAll hs).1.installed = _
    rw [(Cache.exchanges_retireAll hs b.cache).installed, hb.installed]
    exact hcounts.compiled.symm
  case failures =>
    intro h i n hn
    have hn : (b.failures.filterKeys fun k => decide (k.1 ∉ (b.cache.retireAll hs).2)).find? (h, i) =
        some n := hn
    rw [FinMap.find?_filterKeys] at hn
    split_ifs at hn with hm
    obtain ⟨a, ha, hk⟩ := hb.failures h i n hn
    obtain ⟨a', ha', hlose⟩ := hw.kept ha (of_decide_eq_true hm)
    exact ⟨a', ha', hlose.kind.trans hk⟩
  case begun =>
    change b.begun = ((b.cache.retireAll hs).2.foldl Ledger.forget b.ledger).tally.ended + _
    rw [hcounts.ended]
    exact hb.begun

theorem turn (hb : b.Balanced) {m : Mode} (hn : b.mode.recording? = none)
    (hm : m.recording? = none) : Balanced { b with mode := m } where
  rooted := hb.rooted
  vacant := fun p i r hr => by
    rw [show m = .tracingBridge p i r from hr] at hm
    cases hm
  bridges := hb.bridges
  ledger := hb.ledger
  installed := hb.installed
  failures := hb.failures
  begun := by
    have h := hb.begun
    rw [Mode.openTraces_of_none hn, ← Mode.openTraces_of_none hm] at h
    exact h

theorem record (hb : b.Balanced) (g : Recording → Recording) :
    Balanced { b with mode := b.mode.modifyRecording g } where
  rooted := hb.rooted
  vacant := fun p i r hr => by
    obtain ⟨r', hr'⟩ := Mode.of_modifyRecording_eq hr
    exact hb.vacant p i r' hr'
  bridges := hb.bridges
  ledger := hb.ledger
  installed := hb.installed
  failures := hb.failures
  begun := by
    rw [Mode.openTraces_modifyRecording]
    exact hb.begun

theorem countFailure (hb : b.Balanced) {h : Handle} {a : Artifact} (i n : Nat)
    (ha : b.cache.get? h = some a) (hk : a.kind = .loop) :
    Balanced { b with failures := b.failures.insert (h, i) n } where
  rooted := hb.rooted
  vacant := hb.vacant
  bridges := hb.bridges
  ledger := hb.ledger
  installed := hb.installed
  failures := fun j k m hm => by
    have hm : (b.failures.insert (h, i) n).find? (j, k) = some m := hm
    rw [FinMap.find?_insert] at hm
    split_ifs at hm with hj
    · obtain ⟨rfl, -⟩ := Prod.mk.inj hj
      exact ⟨a, ha, hk⟩
    · exact hb.failures j k m hm
  begun := hb.begun

theorem beginLoop (hb : b.Balanced) {e : EntryPoint} {k : Key} {l : Ledger} (r : Recording)
    (hn : b.mode.recording? = none) (hl : b.ledger.begin e k = .ok l) :
    Balanced { b with ledger := l, begun := b.begun + 1, mode := .tracingLoop r } := by
  obtain ⟨hbridges, hcounts⟩ := Ledger.counts_begin hl
  have hbegun := hb.begun
  rw [Mode.openTraces_of_none hn] at hbegun
  constructor
  case rooted => exact hb.rooted
  case vacant => exact fun p i r' hr' => by cases hr'
  case bridges =>
    intro h p
    rw [← hb.bridges, ← hbridges]
  case ledger => exact hcounts.balanced hb.ledger
  case installed => exact hb.installed.trans hcounts.compiled.symm
  case failures => exact hb.failures
  case begun =>
    change b.begun + 1 = l.tally.ended + 1
    rw [hcounts.ended, hbegun]

theorem beginBridge (hb : b.Balanced) {p : Handle} {i : Nat} (r : Recording)
    (hn : b.mode.recording? = none) (hv : ∀ j, ¬ b.cache.Knows p i j) :
    Balanced { b with begun := b.begun + 1, mode := .tracingBridge p i r } where
  rooted := hb.rooted
  vacant := fun q k r' hr' => by
    cases hr'
    exact hv
  bridges := hb.bridges
  ledger := hb.ledger
  installed := hb.installed
  failures := hb.failures
  begun := by
    have hbegun := hb.begun
    rw [Mode.openTraces_of_none hn] at hbegun
    change b.begun + 1 = b.ledger.tally.ended + 1
    rw [hbegun]

theorem abort (hb : b.Balanced) {cause : Abort} {e : EntryPoint} {k : Key} {l : Ledger}
    (hr : b.mode.recording?.isSome = true) (hl : b.ledger.abort cause e k = .ok l) :
    Balanced { b with ledger := l, mode := .interpreting } := by
  obtain ⟨hbridges, hcounts⟩ := Ledger.counts_abort hl
  have hbegun := hb.begun
  rw [Mode.openTraces_of_isSome hr] at hbegun
  constructor
  case rooted => exact hb.rooted
  case vacant => exact fun p i r' hr' => by cases hr'
  case bridges =>
    intro h p
    rw [← hb.bridges, ← hbridges]
  case ledger => exact hcounts.balanced hb.ledger
  case installed => exact hb.installed.trans hcounts.compiled.symm
  case failures => exact hb.failures
  case begun =>
    rw [hcounts.ended]
    exact hbegun

theorem installLoop (hb : b.Balanced) (hc : b.cache.Sound) {e : EntryPoint} {k : Key} {l : Ledger}
    (g : Guards) (ops : List Op) (hr : b.mode.recording?.isSome = true)
    (hl : b.ledger.announceLoop e k ⟨b.cache.next⟩ = .ok l) :
    Balanced { b with
      cache := (b.cache.register g).1.putLoop ⟨b.cache.next⟩ (e.site k) g ops
      ledger := l
      mode := .interpreting } := by
  obtain ⟨hbridges, hcounts⟩ := Ledger.counts_announceLoop hl
  have hd : (b.cache.register g).1.get? ⟨b.cache.next⟩ = none := hc.get?_next
  have hbegun := hb.begun
  rw [Mode.openTraces_of_isSome hr] at hbegun
  constructor
  case rooted =>
    intro h p i hh
    exact (Cache.knows_putLoop_iff hd).2 (hb.rooted h p i ((Cache.hangsOff_putLoop_iff hd).1 hh))
  case vacant => exact fun p i r' hr' => by cases hr'
  case bridges =>
    intro h p
    rw [hbridges, hb.bridges]
    exact exists_congr fun i => (Cache.hangsOff_putLoop_iff hd).symm
  case ledger => exact hcounts.balanced hb.ledger
  case installed =>
    rw [(Cache.exchanges_putLoop hd (e.site k) g ops).installed, hcounts.compiled, ← hb.installed]
    rfl
  case failures =>
    intro h i n hn
    obtain ⟨a, ha, hk⟩ := hb.failures h i n hn
    refine ⟨a, ?_, hk⟩
    change (Cache.putLoop _ _ _ g ops).get? h = some a
    rw [Cache.get?_putLoop, if_neg (hc.ne_next ha)]
    exact ha
  case begun =>
    rw [hcounts.ended]
    exact hbegun

/-- The bridge hangs off a guard that had none, so no other one is displaced. -/
theorem installBridge (hb : b.Balanced) (hc : b.cache.Sound) {e : EntryPoint} {p : Handle} {i : Nat}
    {r : Recording} {a : Artifact} {l : Ledger} (g : Guards) (ops : List Op)
    (hr : b.mode = .tracingBridge p i r) (ha : b.cache.get? p = some a)
    (hl : b.ledger.announceBridge e p ⟨b.cache.next⟩ = .ok l) :
    Balanced { b with
      cache := (b.cache.register g).1.putBridge ⟨b.cache.next⟩ p a.site i g ops
      ledger := l
      mode := .interpreting } := by
  have hd : (b.cache.register g).1.get? ⟨b.cache.next⟩ = none := hc.get?_next
  have hp : (b.cache.register g).1.get? p = some a := ha
  have hnew : b.ledger.bridges.find? ⟨b.cache.next⟩ = none := by
    rw [Option.eq_none_iff_forall_ne_some]
    intro q hq
    obtain ⟨j, na, hna, -⟩ := (hb.bridges _ q).1 hq
    exact hc.ne_next hna rfl
  obtain ⟨hbridges, hcounts⟩ := Ledger.counts_announceBridge hnew hl
  have hbegun := hb.begun
  rw [hr] at hbegun
  constructor
  case rooted =>
    intro h q j hh
    rw [Cache.hangsOff_putBridge_iff] at hh
    refine (Cache.knows_putBridge_iff hd hp).2 ?_
    split_ifs at hh with hnew
    · rw [if_pos hh]
      exact hnew
    · have hk := hb.rooted h q j hh
      rw [if_neg]
      · exact hk
      · rintro ⟨rfl, rfl⟩
        exact hb.vacant q j r hr h hk
  case vacant => exact fun q j r' hr' => by cases hr'
  case bridges =>
    intro h q
    simp only [Cache.hangsOff_putBridge_iff]
    rw [hbridges, FinMap.find?_insert]
    split_ifs
    · simp [eq_comm]
    · exact hb.bridges h q
  case ledger => exact hcounts.balanced hb.ledger
  case installed =>
    rw [(Cache.exchanges_putBridge hd p a.site i g ops).installed, hcounts.compiled, ← hb.installed]
    rfl
  case failures =>
    intro h j n hn
    obtain ⟨la, hla, hk⟩ := hb.failures h j n hn
    refine ⟨_, Cache.get?_putBridge_of_ne (hc.ne_next hla) hla, ?_⟩
    split_ifs <;> exact hk
  case begun =>
    rw [hcounts.ended]
    exact hbegun

/-- Every move keeps the books balanced. -/
theorem move {b' : Books} (hb : b.Balanced) (hc : b.cache.Sound) (hl : b.ledger.Sound)
    (hm : b.Move b') : b'.Balanced := by
  cases hm with
  | versions t n => exact hb.versions t n
  | enter h => exact hb.enter h
  | retire hs => exact hb.retire hc hl hs
  | turn m hn hm => exact hb.turn hn hm
  | record g => exact hb.record g
  | countFailure i n ha hk => exact hb.countFailure i n ha hk
  | beginLoop r hn hbegin => exact hb.beginLoop r hn hbegin
  | beginBridge r hn hv => exact hb.beginBridge r hn hv
  | abort hr habort => exact hb.abort hr habort
  | installLoop g ops hr hannounce => exact hb.installLoop hc g ops hr hannounce
  | installBridge g ops hr ha hannounce => exact hb.installBridge hc g ops hr ha hannounce

end Balanced

theorem balanced_new (settings : Settings) :
    (Tracer.books { settings := settings } .interpreting).Balanced where
  rooted := fun h p i hh => by
    obtain ⟨a, ha, -⟩ := hh
    cases ha
  vacant := fun p i r hr => by cases hr
  bridges := fun h p => by
    refine iff_of_false (fun hh => by cases hh) ?_
    rintro ⟨i, a, ha, -⟩
    cases ha
  ledger := ⟨rfl, rfl⟩
  installed := rfl
  failures := fun h i n hn => by cases hn
  begun := rfl

def Step (b b' : Books) : Prop := b.cache.Sound ∧ b.ledger.Sound ∧ b.Move b'

def Leads (b b' : Books) : Prop := Relation.ReflTransGen Step b b'

namespace Leads

variable {b b' b'' : Books}

theorem refl (b : Books) : b.Leads b := Relation.ReflTransGen.refl

theorem trans (h : b.Leads b') (h' : b'.Leads b'') : b.Leads b'' :=
  Relation.ReflTransGen.trans h h'

theorem balanced (h : b.Leads b') (hb : b.Balanced) : b'.Balanced := by
  induction h with
  | refl => exact hb
  | tail _ hstep ih =>
      obtain ⟨hc, hl, hm⟩ := hstep
      exact ih.move hc hl hm

end Leads

end Books

end HotLoop
