import HotLoop.Proofs.Bridges
import HotLoop.Proofs.History

/-!
# Bridges that outlive their loop

A bridge that is attached where another one hangs displaces it: the older bridge stays live, but its
loop has forgotten it. So a live bridge hangs off a live loop that knows it just if it is the latest
one that was attached to its guard. A loop that is retired, in whatever way, leaves the others behind.
-/

namespace HotLoop.Code

open Trace

structure Attachment where
  bridge : Handle
  parent : Handle
  failIndex : Nat

namespace Attachment

/-- The bridge that was attached last to a guard. -/
def latest? (as : List Attachment) (p : Handle) (i : Nat) : Option Handle :=
  (as.findRev? fun a => decide (a.parent = p ∧ a.failIndex = i)).map Attachment.bridge

variable {as : List Attachment} {b h p q : Handle} {i k : Nat}

theorem latest?_append :
    latest? (as ++ [⟨h, q, k⟩]) p i = if p = q ∧ i = k then some h else latest? as p i := by
  unfold latest?
  rw [List.findRev?_eq_find?_reverse, List.findRev?_eq_find?_reverse, List.reverse_append]
  by_cases hp : p = q ∧ i = k
  · rw [if_pos hp]
    simp [hp.1, hp.2]
  · have hq : ¬ (q = p ∧ k = i) := fun h => hp ⟨h.1.symm, h.2.symm⟩
    rw [if_neg hp]
    simp [hq]

theorem mem_of_latest? (hl : latest? as p i = some b) : (⟨b, p, i⟩ : Attachment) ∈ as := by
  obtain ⟨a, ha, rfl⟩ := Option.map_eq_some_iff.1 hl
  rw [List.findRev?_eq_find?_reverse] at ha
  have hg := List.find?_some ha
  obtain ⟨rfl, rfl⟩ := of_decide_eq_true hg
  exact List.mem_reverse.1 (List.mem_of_find?_eq_some ha)

end Attachment

namespace Cache

structure Tells (c : Cache) (as : List Attachment) : Prop where
  issued : ∀ x ∈ as, x.bridge.number < c.next
  hangsOff_iff : ∀ b p i, c.HangsOff b p i ↔ c.isLive b = true ∧ (⟨b, p, i⟩ : Attachment) ∈ as
  knows_iff : ∀ p i b, c.Knows p i b ↔ c.isLive b = true ∧ Attachment.latest? as p i = some b

variable {c c' : Cache} {as : List Attachment}

theorem tells_empty (table : Nat) : Tells { versions := { table := table } } [] where
  issued := fun x hx => absurd hx List.not_mem_nil
  hangsOff_iff := fun b p i => by
    refine iff_of_false ?_ fun hb => List.not_mem_nil hb.2
    rintro ⟨a, ha, -⟩
    cases ha
  knows_iff := fun p i b => by
    refine iff_of_false (not_knows_of_dead rfl) fun hb => ?_
    cases hb.2

namespace Tells

/-- What the attachments tell is a matter of the artifacts alone. -/
theorem of_artifacts (ht : c.Tells as) (ha : c'.artifacts = c.artifacts) (hx : c.next ≤ c'.next) :
    c'.Tells as where
  issued := fun x hm => (ht.issued x hm).trans_le hx
  hangsOff_iff := fun b p i => by
    unfold HangsOff isLive get?
    rw [ha]
    exact ht.hangsOff_iff b p i
  knows_iff := fun p i b => by
    unfold Knows isLive get?
    rw [ha]
    exact ht.knows_iff p i b

theorem retireAll (ht : c.Tells as) (hc : c.Sound) (hs : List Handle) :
    (c.retireAll hs).1.Tells as where
  issued := fun x hm => by
    rw [(without_retireAll hs hc).next]
    exact ht.issued x hm
  hangsOff_iff := fun b p i => by
    rw [(without_retireAll hs hc).hangsOff_iff, (without_retireAll hs hc).isLive_iff,
      ht.hangsOff_iff, and_right_comm]
  knows_iff := fun p i b => by
    rw [knows_retireAll_iff hc, (without_retireAll hs hc).isLive_iff, ht.knows_iff, and_right_comm]

theorem retire (ht : c.Tells as) (hc : c.Sound) (h : Handle) : (c.retire h).1.Tells as := by
  rw [← retireAll_singleton]
  exact ht.retireAll hc [h]

theorem entered (ht : c.Tells as) (h : Handle) :
    Tells { c with artifacts := c.artifacts.modify h Artifact.entered } as where
  issued := ht.issued
  hangsOff_iff := fun b p i => by
    rw [hangsOff_entered_iff, isLive_entered_iff]
    exact ht.hangsOff_iff b p i
  knows_iff := fun p i b => by
    rw [knows_entered_iff, isLive_entered_iff]
    exact ht.knows_iff p i b

theorem enter (ht : c.Tells as) (hc : c.Sound) (h : Handle) : (c.enter h).1.Tells as := by
  rcases enter_cases c h with ⟨-, he⟩ | ⟨a, -, -, he⟩ | ⟨a, v, -, -, he⟩ <;> rw [he]
  · exact ht
  · exact ht.entered h
  · exact ht.retire hc h

theorem vacate (ht : c.Tells as) (hc : c.Sound) (s : Site) : (c.vacate s).1.Tells as := by
  unfold Cache.vacate
  split
  · exact ht.retire hc _
  · exact ht

theorem putLoop (ht : c.Tells as) {h : Handle} (hd : c.get? h = none)
    (hfresh : ∀ x ∈ as, x.bridge ≠ h) (s : Site) (g : Guards) (ops : List Op) :
    (c.putLoop h s g ops).Tells as where
  issued := ht.issued
  hangsOff_iff := fun b p i => by
    rw [hangsOff_putLoop_iff hd, isLive_putLoop_iff, ht.hangsOff_iff]
    refine and_congr_left fun hm => ?_
    rw [or_iff_right (hfresh _ hm)]
  knows_iff := fun p i b => by
    rw [knows_putLoop_iff hd, isLive_putLoop_iff, ht.knows_iff]
    refine and_congr_left fun hl => ?_
    rw [or_iff_right (hfresh _ (Attachment.mem_of_latest? hl))]

/-- The bridge that is attached now is the latest one of its guard, and no other guard changes. -/
theorem putBridge (ht : c.Tells as) {h p : Handle} {a : Artifact} (hd : c.get? h = none)
    (hp : c.get? p = some a) (hh : h.number < c.next) (hfresh : ∀ x ∈ as, x.bridge ≠ h) (s : Site)
    (k : Nat) (g : Guards) (ops : List Op) :
    (c.putBridge h p s k g ops).Tells (as ++ [⟨h, p, k⟩]) where
  issued := fun x hx => by
    rcases List.mem_append.1 hx with hx | hx
    · exact ht.issued x hx
    · rw [List.mem_singleton.1 hx]
      exact hh
  hangsOff_iff := fun b q i => by
    rw [hangsOff_putBridge_iff, isLive_putBridge_iff, List.mem_append, List.mem_singleton,
      Attachment.mk.injEq]
    by_cases hb : b = h
    · subst hb
      have hm : (⟨b, q, i⟩ : Attachment) ∉ as := fun hm => hfresh _ hm rfl
      simp [hm]
    · simp [hb, ht.hangsOff_iff]
  knows_iff := fun q i b => by
    rw [knows_putBridge_iff hd hp, isLive_putBridge_iff, Attachment.latest?_append]
    split_ifs with hq
    · rw [Option.some.injEq]
      exact ⟨fun hb => ⟨Or.inl hb, hb.symm⟩, fun hb => hb.2.symm⟩
    · rw [ht.knows_iff]
      refine and_congr_left fun hl => ?_
      rw [or_iff_right (hfresh _ (Attachment.mem_of_latest? hl))]

theorem register (ht : c.Tells as) (g : Guards) : (c.register g).1.Tells as :=
  ht.of_artifacts rfl (Nat.le_succ _)

theorem fresh (ht : c.Tells as) : ∀ x ∈ as, x.bridge ≠ ⟨c.next⟩ := fun x hx he => by
  have hlt := ht.issued x hx
  rw [he] at hlt
  exact lt_irrefl _ hlt

theorem addLoop (ht : c.Tells as) (hc : c.Sound) (s : Site) (g : Guards) (ops : List Op) :
    (c.addLoop s g ops).1.Tells as := by
  cases hg : g.firstStale? c.versions with
  | some v =>
      rw [addLoop_of_stale hg]
      exact ht.register g
  | none =>
      have hp := (hc.pending_register hg).without (without_vacate (hc.register g) s).1
      rw [addLoop_of_current hg]
      exact ((ht.register g).vacate (hc.register g) s).putLoop hp.dead ht.fresh s g ops

end Tells

end Cache

namespace History

def attached? (w : History) : Step → Option Attachment
  | .install (.bridge p i) picks ops =>
    match Target.install (w.guards picks) ops (.bridge p i) (w.shapes, w.cache) with
    | .ok (.ok b) _ => some ⟨b, p, i⟩
    | _ => none
  | _ => none

def attachments (w : History) : List Step → List Attachment
  | [] => []
  | s :: steps => (w.attached? s).toList ++ attachments (w.step s) steps

variable {w : History} {as : List Attachment}

theorem tells_installLoop (ht : w.cache.Tells as) (hc : w.cache.Sound) (e : EntryPoint) (k : Key)
    (picks : List Nat) (ops : List Op) :
    (w.step (.install (.loop e k) picks ops)).cache.Tells as := by
  have ha := ht.addLoop hc (e.site k) (w.guards picks) ops
  simp only [step, perform, Target.install, bind, EStateM.bind, Cache.installLoop_eq]
  cases w.shapes.check e k with
  | error f => exact ht
  | ok shapes =>
      simp only [pure, EStateM.pure]
      cases (w.cache.addLoop (e.site k) (w.guards picks) ops).2 with
      | error l => exact ha
      | ok r => exact ha

theorem tells_installBridge (ht : w.cache.Tells as) (hc : w.cache.Sound) (p : Handle) (i : Nat)
    (picks : List Nat) (ops : List Op) :
    (w.step (.install (.bridge p i) picks ops)).cache.Tells
      (as ++ (w.attached? (.install (.bridge p i) picks ops)).toList) := by
  simp only [step, perform, attached?, Target.install, Cache.installBridge]
  cases hp : w.cache.get? p with
  | none =>
      rw [Option.toList_none, List.append_nil]
      exact ht
  | some a =>
      dsimp only
      by_cases hk : a.IsLoop
      · rw [if_pos hk]
        cases hg : (w.guards picks).firstStale? w.cache.versions with
        | some v =>
            rw [Cache.addBridge_of_stale hg]
            simp only [Option.toList_none, List.append_nil]
            exact ht.register (w.guards picks)
        | none =>
            rw [Cache.addBridge_of_current hg]
            exact (ht.register (w.guards picks)).putBridge hc.get?_next hp (Nat.lt_succ_self _)
              ht.fresh a.site i (w.guards picks) ops
      · rw [if_neg hk, Option.toList_none, List.append_nil]
        exact ht

theorem tells_step (ht : w.cache.Tells as) (hw : w.Inv) (s : Step) :
    (w.step s).cache.Tells (as ++ (w.attached? s).toList) := by
  have hnone : ∀ {s : Step}, w.attached? s = none → (w.step s).cache.Tells as →
      (w.step s).cache.Tells (as ++ (w.attached? s).toList) := by
    intro s hs ht
    rw [hs, Option.toList_none, List.append_nil]
    exact ht
  cases s with
  | capture l => exact hnone rfl (ht.of_artifacts rfl le_rfl)
  | invalidate l =>
      refine hnone rfl ?_
      simp only [step, perform]
      cases w.cache.versions.invalidate? l with
      | none => exact ht
      | some r => exact ht.of_artifacts rfl le_rfl
  | apply i => exact hnone rfl (ht.retireAll hw.sound i.dependents)
  | install target picks ops =>
      cases target with
      | loop e k => exact hnone rfl (tells_installLoop ht hw.sound e k picks ops)
      | bridge p i => exact tells_installBridge ht hw.sound p i picks ops
  | enter h => exact hnone rfl (ht.enter hw.sound h)
  | retire h => exact hnone rfl (ht.retire hw.sound h)

theorem tells_foldl (ht : w.cache.Tells as) (hw : w.Inv) (steps : List Step) :
    (steps.foldl step w).cache.Tells (as ++ w.attachments steps) := by
  induction steps generalizing w as with
  | nil =>
      rw [attachments, List.append_nil]
      exact ht
  | cons s steps ih =>
      rw [attachments, ← List.append_assoc]
      exact ih (tells_step ht hw s) (hw.step s)

theorem tells_run (table : Nat) (steps : List Step) :
    (run table steps).cache.Tells ((fresh table).attachments steps) := by
  have ht := tells_foldl (Cache.tells_empty table) (inv_fresh table) steps
  rw [List.nil_append] at ht
  exact ht

/-! ## Displaced bridges -/

/-- The fate of the bridges of a cache, told by the attachments `as`. -/
structure BridgeFates (c : Cache) (as : List Attachment) : Prop where
  /-- A bridge hangs off a guard while it lives, if it was attached there. -/
  hangsOff_iff : ∀ b p i, c.HangsOff b p i ↔ c.isLive b = true ∧ (⟨b, p, i⟩ : Attachment) ∈ as
  /-- It has a live loop that knows it just if it was attached there last. -/
  known_iff : ∀ b p i, c.HangsOff b p i →
    (((∃ a, c.get? p = some a ∧ a.kind = .loop) ∧ c.bridge? p i = some b) ↔
      Attachment.latest? as p i = some b)
  /-- A loop takes along the live ones among the latest bridges of its guards. -/
  mem_retire_iff : ∀ p a, c.get? p = some a → a.kind = .loop → ∀ b,
    b ∈ (c.retire p).2 ↔ b = p ∨ c.isLive b = true ∧ ∃ i, Attachment.latest? as p i = some b
  /-- The others stay live, whatever else is retired. -/
  displaced : ∀ b p i, c.HangsOff b p i → Attachment.latest? as p i ≠ some b → ∀ h, h ≠ b →
    (c.retire h).1.isLive b = true

theorem bridgeFates {c : Cache} (ht : c.Tells as) (hc : c.Sound) : BridgeFates c as where
  hangsOff_iff := ht.hangsOff_iff
  known_iff := fun b p i hb => by
    rw [hc.bridge?_eq_some_iff, ht.knows_iff, and_iff_right hb.isLive]
    refine ⟨fun h => h.2, fun hl => ⟨?_, hl⟩⟩
    have hk : c.Knows p i b := (ht.knows_iff p i b).2 ⟨hb.isLive, hl⟩
    exact (hc.of_knows hk).1
  mem_retire_iff := fun p a ha _ b => by
    rw [Cache.mem_retire hc]
    constructor
    · rintro ⟨a, ha, rfl | ⟨i, hi⟩⟩
      · exact Or.inl rfl
      · obtain ⟨hl, hb⟩ := (ht.knows_iff p i b).1 ⟨a, ha, hi⟩
        exact Or.inr ⟨hl, i, hb⟩
    · rintro (rfl | ⟨hl, i, hb⟩)
      · exact ⟨a, ha, Or.inl rfl⟩
      · obtain ⟨a, ha, hi⟩ := (ht.knows_iff p i b).2 ⟨hl, hb⟩
        exact ⟨a, ha, Or.inr ⟨i, hi⟩⟩
  displaced := fun b p i hb hl h hne => by
    refine (Cache.without_retire hc h).isLive_iff.2 ⟨hb.isLive, fun hm => ?_⟩
    obtain ⟨a, ha, rfl | ⟨k, hk⟩⟩ := (Cache.mem_retire hc).1 hm
    · exact hne rfl
    · -- only a loop that knows the bridge takes it along
      have hknows : c.Knows h k b := ⟨a, ha, hk⟩
      obtain ⟨rfl, rfl⟩ := hb.unique (hc.of_knows hknows).2
      exact hl ((ht.knows_iff p i b).1 hknows).2

/-- In all histories, a live bridge belongs to a live loop just if it is the latest one of its
guard, and one that was displaced outlives its loop. -/
theorem run_bridgeFates (table : Nat) (steps : List Step) :
    BridgeFates (run table steps).cache ((fresh table).attachments steps) :=
  bridgeFates (tells_run table steps) (inv_run table steps).sound

def twoBridges : List Step :=
  [.install (.loop ⟨0, "loop", ["n"], ["i"]⟩ ⟨[.int 1]⟩) [] [], .install (.bridge ⟨1⟩ 0) [] [],
    .install (.bridge ⟨1⟩ 0) [] []]

/-- The first of two bridges behind one guard is live when the loop has been retired. -/
theorem displaced_bridge_outlives_loop :
    let c := (run 0 (twoBridges ++ [.retire ⟨1⟩])).cache
    c.isLive ⟨2⟩ = true ∧ (c.get? ⟨2⟩).map Artifact.kind = some (.bridge ⟨1⟩ 0) ∧
      c.isLive ⟨1⟩ = false ∧ c.bridge? ⟨1⟩ 0 = none := by
  decide

end History

end HotLoop.Code
