import HotLoop.Proofs.Bridges
import HotLoop.Proofs.Steps

/-!
# Invariants of heap and code cache

What holds of heap, code cache, settings and mode is untouched by reports, the journal and the
counters. So the loop head and failing branch guards keep it if entering and installing artifacts
do, and if it holds of the modes that then begin: `Persists` lists what is to be shown.
-/

namespace HotLoop.Tracer

open Code Journal Lifecycle Trace

/-- `P` is about heap, code cache, settings and mode, and it is kept by what the loop head and
failing guards do to these. -/
structure Persists (P : Tracer → Mode → Prop) : Prop where
  sound : ∀ {t m}, P t m → t.cache.Sound
  sameCode : ∀ {t t' m}, P t m → t.SameCode t' → P t' m
  stop : ∀ {t m}, P t m → P t .interpreting
  enter : ∀ {t m} h, P t m → P (t.enter h).1 .interpreting
  traceLoop : ∀ {t} k, P t .interpreting → P t (.tracingLoop { key := k, ops := [.label] })
  run : ∀ {t m s h} expected, P t m → t.cache.loop? s = some h →
    (t.cache.enter h).2 = .entered → P (t.enter h).1 (.running h expected 0)
  addLoop : ∀ {t r} s, P t (.tracingLoop r) →
    P { t with cache := (t.cache.addLoop s r.guards (r.ops ++ [.jump])).1 } .interpreting
  addBridge : ∀ {t p i r a}, P t (.tracingBridge p i r) → t.cache.get? p = some a → a.IsLoop →
    P { t with cache := (t.cache.addBridge p a.site i r.guards (r.ops ++ [.jump])).1 } .interpreting
  traceBridge : ∀ {t m h i} k, P t m → (∀ b, ¬ t.cache.Knows h i b) →
    P t (.tracingBridge h i { key := k, ops := [] })
  runBridge : ∀ {t h expected n i b}, P t (.running h expected n) →
    t.cache.bridge? h i = some b → (t.cache.enter b).2 = .entered →
    P (t.enter b).1 (.runningBridge b)

namespace Persists

variable {P : Tracer → Mode → Prop} {t : Tracer} {m : Mode}

theorem checkKey (hP : Persists P) (e : EntryPoint) (k : Key) (h : P t m) :
    Ends (fun _ t' => P t' m) (fun _ t' => P t' m) (onMonitor (Shapes.checkKey e k) t) :=
  (sameCode_onMonitor _ t).imp (fun _ _ ht => hP.sameCode h ht) fun _ _ ht => hP.sameCode h ht

theorem report (hP : Persists P) (r : Report) (h : P t m) :
    Ends (fun _ t' => P t' m) (fun _ t' => P t' m) (report r t) :=
  (sameCode_report r t).imp (fun _ _ ht => hP.sameCode h ht) fun _ _ ht => hP.sameCode h ht

theorem leaveLoop (hP : Persists P) (e : EntryPoint) (h : P t m) :
    Ends (fun _ t' => P t' .interpreting) (fun _ t' => P t' .interpreting) (leaveLoop e m t) := by
  cases m with
  | tracingLoop r => exact hP.report _ (hP.stop h)
  | tracingBridge p i r => exact hP.report _ (hP.stop h)
  | _ => exact hP.stop h

/-! ### Loop heads -/

theorem countHit (hP : Persists P) (e : EntryPoint) (k : Key) (h : P t .interpreting) :
    Ends (fun m' t' => P t' m') (fun _ t' => P t' .interpreting) (countHit e k t) := by
  rw [countHit_eq]
  dsimp only
  split_ifs
  · exact hP.sameCode h ⟨rfl, rfl, rfl⟩
  · have hnote : P ({ t with hits := t.hits.insert (e.site k) 0 }.note [.loopTraced e k])
        .interpreting := hP.sameCode h ⟨rfl, rfl, rfl⟩
    refine Ends.bind ((hP.report (.begin e k) hnote).imp (fun _ t' ht => ?_) fun _ _ ht => ht)
    exact hP.traceLoop k ht

theorem enterOrCount (hP : Persists P) (e : EntryPoint) (k : Key) (h : P t .interpreting) :
    Ends (fun m' t' => P t' m') (fun _ t' => P t' .interpreting) (enterOrCount e k t) := by
  rw [enterOrCount_eq]
  split_ifs
  · cases hl : t.cache.loop? (e.site k) with
    | none => exact hP.countHit e k h
    | some j =>
        have henter := hP.enter j h
        dsimp only
        cases he : (t.cache.enter j).2 with
        | entered => exact hP.run _ h hl he
        | guardFailed l retired =>
            refine hP.countHit e k (hP.sameCode henter ?_)
            exact (sameCode_note [.loopRefused j l] _).trans (sameCode_forgetAll _ retired)
        | dead => exact hP.countHit e k henter
  · exact h

theorem closeLoop (hP : Persists P) (e : EntryPoint) {r : Recording} (h : P t (.tracingLoop r)) :
    Ends (fun _ t' => P t' .interpreting) (fun _ t' => P t' .interpreting) (closeLoop e r t) := by
  have hadd := hP.addLoop (e.site r.key) h
  rw [closeLoop_eq, installLoop_eq]
  dsimp only
  cases t.shapes.check e r.key with
  | error f => exact hP.sameCode (hP.stop h) ⟨rfl, rfl, rfl⟩
  | ok shapes =>
      dsimp only
      cases (t.cache.addLoop (e.site r.key) r.guards (r.ops ++ [.jump])).2 with
      | error l => exact hP.report _ (hP.sameCode hadd ⟨rfl, rfl, rfl⟩)
      | ok i =>
          refine hP.report _ (hP.sameCode (hP.sameCode hadd ?_) (sameCode_forgetAll _ i.replaced))
          exact ⟨rfl, rfl, rfl⟩

theorem closeBridge (hP : Persists P) (e : EntryPoint) {p : Handle} {i : Nat} {r : Recording}
    (h : P t (.tracingBridge p i r)) :
    Ends (fun _ t' => P t' .interpreting) (fun _ t' => P t' .interpreting)
      (closeBridge e p i r t) := by
  have hi := hP.stop h
  rw [closeBridge_eq, installBridge_eq]
  split_ifs
  · dsimp only
    cases hp : t.cache.get? p with
    | none => exact hP.sameCode hi ⟨rfl, rfl, rfl⟩
    | some a =>
        dsimp only
        by_cases hl : a.IsLoop
        · have hadd := hP.addBridge h hp hl
          rw [if_pos hl]
          cases (t.cache.addBridge p a.site i r.guards (r.ops ++ [.jump])).2 with
          | error l => exact hP.report _ (hP.sameCode hadd ⟨rfl, rfl, rfl⟩)
          | ok b => exact hP.report _ (hP.sameCode hadd ⟨rfl, rfl, rfl⟩)
        · rw [if_neg hl]
          exact hP.sameCode hi ⟨rfl, rfl, rfl⟩
  · exact hP.report _ hi

theorem mergePoint (hP : Persists P) (e : EntryPoint) (k : Key) (h : P t m) :
    Ends (fun m' t' => P t' m') (fun _ t' => P t' .interpreting) (mergePoint e k m t) := by
  refine ends_mergePoint ?_ ?_ (fun _ _ _ => h) fun _ => hP.enterOrCount e k (hP.stop h)
  · rintro r rfl -
    exact Ends.bind ((hP.closeLoop e h).imp (fun _ _ ht => hP.enterOrCount e k ht)
      fun _ _ ht => ht)
  · rintro p i r rfl -
    exact Ends.bind ((hP.closeBridge e h).imp (fun _ _ ht => hP.enterOrCount e k ht)
      fun _ _ ht => ht)

/-! ### Failing branch guards -/

theorem countFailure (hP : Persists P) {j : Handle} {i : Nat} (h : P t m)
    (hv : ∀ b, ¬ t.cache.Knows j i b) : P (t.countFailure j i).1 (t.countFailure j i).2 := by
  unfold Tracer.countFailure
  cases t.cache.get? j with
  | none => exact hP.stop h
  | some a =>
      dsimp only
      split_ifs
      · exact hP.sameCode (hP.stop h) ⟨rfl, rfl, rfl⟩
      · exact hP.sameCode (hP.traceBridge a.site.key h hv) ⟨rfl, rfl, rfl⟩

/-- The bridge of the guard is entered, or there is none any more and one can be traced. -/
theorem guardFailed (hP : Persists P) {j : Handle} {expected : List Bool} {n : Nat}
    (h : P t (.running j expected n)) (i : Nat) :
    P (t.guardFailed j i).1 (t.guardFailed j i).2 := by
  have hc := hP.sound h
  rw [guardFailed_eq]
  cases hb : t.cache.bridge? j i with
  | none => exact hP.countFailure h (hc.bridge?_eq_none_iff.1 hb)
  | some b =>
      have hk := hc.bridge?_eq_some_iff.1 hb
      have henter := hP.enter b h
      dsimp only
      rcases Cache.enter_cases t.cache b with ⟨hd, -⟩ | ⟨a, -, -, he⟩ | ⟨a, v, -, -, he⟩
      · obtain ⟨a, ha, -⟩ := (hc.of_knows hk).2
        rw [hd] at ha
        cases ha
      · have he := congrArg Prod.snd he
        rw [he]
        exact hP.runBridge h hb he
      · have hsame := sameCode_forgetAll (t.enter b).1 (t.cache.retire b).2
        have hgone : (t.enter b).1.cache = (t.cache.retire b).1 := congrArg Prod.fst he
        rw [congrArg Prod.snd he]
        refine hP.countFailure (hP.sameCode henter hsame) ?_
        rw [hsame.cache, hgone]
        exact hc.not_knows_retire hk

end Persists

end HotLoop.Tracer
