import HotLoop.Proofs.Stories

/-!
# One ledger, many lives

A ledger keeps all sites in one map, and finds the site of a handle in two others. `Known` says that
what it keeps has been announced. If each handle is announced once, then each accepted act moves the
site that it concerns as `Phase.after` does, and no other.
-/

namespace HotLoop.Lifecycle

def accepted : Ledger → List Act → List Act
  | _, [] => []
  | l, a :: as =>
    match a.step l with
    | some l' => a :: accepted l' as
    | none => accepted l as

def concerning (as : List Act) (s : Site) (acts : List Act) : List Act :=
  acts.filter fun a => a.site? as = some s

structure Ledger.Known (as : List Act) (l : Ledger) : Prop where
  loop : ∀ h s, l.loops.find? h = some s → ∃ a ∈ as, a.loop? = some (h, s)
  bridge : ∀ b p, l.bridges.find? b = some p →
    ∃ a ∈ as, a.bridge? = some (b, p) ∧ ∃ s, loopSite? as p = some s
  live : ∀ s h, (l.phase s).liveLoop? = some h → ∃ a ∈ as, a.loop? = some (h, s)

section

variable {as : List Act} {a : Act} {l l' : Ledger} {h p : Handle} {s : Site}

theorem accepted_cons_some (ht : a.step l = some l') (acts : List Act) :
    accepted l (a :: acts) = a :: accepted l' acts := by
  simp only [accepted, ht]

theorem accepted_cons_none (ht : a.step l = none) (acts : List Act) :
    accepted l (a :: acts) = accepted l acts := by
  simp only [accepted, ht]

namespace Ledger

theorem perform_of_some (ht : a.step l = some l') : l.perform a = l' := by
  rw [perform, ht, Option.getD_some]

theorem perform_of_none (ht : a.step l = none) : l.perform a = l := by
  rw [perform, ht, Option.getD_none]

theorem known_empty : Known as {} where
  loop _ _ hs := nomatch hs
  bridge _ _ hp := nomatch hp
  live _ _ hh := nomatch hh

namespace Known

variable (hk : l.Known as)

include hk

theorem loopSite? (ho : OneSite as) (hs : l.loops.find? h = some s) : loopSite? as h = some s := by
  obtain ⟨a, ha, hl⟩ := hk.loop h s hs
  exact ho.loopSite?_eq ha hl

theorem bridgeSite? (ho : OneSite as) (hp : l.bridges.find? h = some p) :
    ∃ s, handleSite? as h = some s := by
  obtain ⟨a, ha, hb, s, hs⟩ := hk.bridge h p hp
  exact ⟨s, ho.handleSite?_eq ha hb hs⟩

theorem loops_eq_none (ho : OneSite as) (hs : handleSite? as h = none) :
    l.loops.find? h = none := by
  rw [Option.eq_none_iff_forall_ne_some]
  intro s hl
  rw [handleSite?_of_loopSite? (hk.loopSite? ho hl)] at hs
  cases hs

theorem bridges_eq_none (ho : OneSite as) (hs : handleSite? as h = none) :
    l.bridges.find? h = none := by
  rw [Option.eq_none_iff_forall_ne_some]
  intro p hp
  obtain ⟨s, hh⟩ := hk.bridgeSite? ho hp
  rw [hh] at hs
  cases hs

theorem not_live (hn : (as.filterMap Act.announced?).Nodup) (hp : l.bridges.find? h = some p) :
    (l.phase s).liveLoop? ≠ some h := by
  intro hs
  obtain ⟨a, ha, hb, -⟩ := hk.bridge h p hp
  obtain ⟨a', ha', hl⟩ := hk.live s h hs
  have heq := eq_of_announced? hn ha ha' (Act.announced?_of_bridge? hb)
    (Act.announced?_of_loop? hl)
  rw [heq, Act.bridge?_of_loop? hl] at hb
  cases hb

/-- A phase is written to one site, and its live loop is announced. -/
theorem live_insert {t : Site} {q : Phase}
    (hq : ∀ h, q.liveLoop? = some h → ∃ a ∈ as, a.loop? = some (h, t)) :
    ∀ s h, ((l.phases.insert t q).findD s .untouched).liveLoop? = some h →
      ∃ a ∈ as, a.loop? = some (h, s) := by
  intro s h hl
  rw [phase_insert l] at hl
  split_ifs at hl with hs
  · rw [hs]
    exact hq h hl
  · exact hk.live s h hl

theorem idle_insert {t : Site} {q : Phase} (hq : q.liveLoop? = none) :
    ∀ s h, ((l.phases.insert t q).findD s .untouched).liveLoop? = some h →
      ∃ a ∈ as, a.loop? = some (h, s) :=
  hk.live_insert fun h hl => by simp [hq] at hl

theorem takes (ha : a ∈ as) (ht : l.Takes a l') : l'.Known as := by
  cases ht with
  | begin e k hp => exact ⟨hk.loop, hk.bridge, hk.idle_insert rfl⟩
  | abort cause e k hp => exact ⟨hk.loop, hk.bridge, hk.idle_insert rfl⟩
  | abortBridge cause e k hp => exact ⟨hk.loop, hk.bridge, hk.live⟩
  | loop e k h ops kind address length hp hn =>
      refine ⟨fun j s hs => ?_, hk.bridge, hk.live_insert fun j hl => ?_⟩
      · rw [FinMap.find?_insert] at hs
        split_ifs at hs with hj
        · obtain rfl := Option.some.inj hs
          exact ⟨_, ha, congrArg (fun j => some (j, e.site k)) hj.symm⟩
        · exact hk.loop j s hs
      · obtain rfl := Option.some.inj hl
        exact ⟨_, ha, rfl⟩
  | bridge e parent b i ops address length hs he hp =>
      obtain ⟨a', ha', hl'⟩ := hk.loop parent _ hs
      refine ⟨hk.loop, fun j q hq => ?_, hk.live_insert fun j hl => ?_⟩
      · rw [FinMap.find?_insert] at hq
        split_ifs at hq with hj
        · obtain rfl := Option.some.inj hq
          exact ⟨_, ha, congrArg (fun j => some (j, parent)) hj.symm, exists_lookup ha' hl'⟩
        · exact hk.bridge j q hq
      · rw [(bridgedPhase_eq_ok_iff.1 hp).2.2] at hl
        obtain rfl := Option.some.inj hl
        exact ⟨a', ha', hl'⟩
  | retireBridge hb =>
      refine ⟨hk.loop, fun j q hq => hk.bridge j q ?_, hk.live⟩
      rw [FinMap.find?_erase] at hq
      split_ifs at hq
      exact hq
  | retireLoop hb hs hp =>
      refine ⟨fun j t ht => hk.loop j t ?_, hk.bridge, hk.idle_insert rfl⟩
      rw [FinMap.find?_erase] at ht
      split_ifs at ht
      exact ht
  | retireReplaced hb hs hp =>
      refine ⟨fun j t ht => hk.loop j t ?_, hk.bridge, hk.live⟩
      rw [FinMap.find?_erase] at ht
      split_ifs at ht
      exact ht

end Known

/-- An accepted act moves the site that it concerns, as that site by itself would move. -/
theorem Takes.phase (ht : l.Takes a l') (hk : l.Known as) (ho : OneSite as)
    (hlive : ∀ h p, l.bridges.find? h = some p → ∀ s, (l.phase s).liveLoop? ≠ some h) (s : Site) :
    l'.phase s = if a.site? as = some s then (l.phase s).after a else l.phase s := by
  have hmove : ∀ t q, a.site? as = some t → (l.phase t).after a = q →
      (l.phases.insert t q).findD s .untouched =
        if a.site? as = some s then (l.phase s).after a else l.phase s := by
    intro t q hs hq
    rw [phase_insert l, hs]
    by_cases he : s = t
    · rw [if_pos he, he, if_pos rfl, hq]
    · rw [if_neg he, if_neg fun h => he (Option.some.inj h).symm]
  have hstay : (∀ t, a.site? as = some t → (l.phase t).after a = l.phase t) →
      l.phase s = if a.site? as = some s then (l.phase s).after a else l.phase s := by
    intro hq
    split_ifs with hs
    · exact (hq s hs).symm
    · rfl
  cases ht with
  | begin e k hp => exact hmove _ _ rfl rfl
  | abort cause e k hp => exact hmove _ _ rfl (if_pos hp)
  | abortBridge cause e k hp =>
      apply hstay
      intro t hs
      obtain rfl := Option.some.inj hs
      exact if_neg hp.2.2
  | loop e k h ops kind address length hp hn => exact hmove _ _ rfl (if_pos hp)
  | bridge e parent b i ops address length hs he hp =>
      obtain ⟨hl, -, rfl⟩ := bridgedPhase_eq_ok_iff.1 hp
      exact hmove _ _ (hk.loopSite? ho hs) (if_pos hl)
  | retireBridge hb => exact hstay fun t _ => if_neg (hlive _ _ hb t)
  | retireLoop hb hs hp =>
      exact hmove _ _ (handleSite?_of_loopSite? (hk.loopSite? ho hs)) (if_pos hp)
  | retireReplaced hb hs hp =>
      apply hstay
      intro t ht
      have hsite := handleSite?_of_loopSite? (hk.loopSite? ho hs)
      obtain rfl := Option.some.inj (hsite.symm.trans ht)
      exact if_neg hp

def CountsFit (l : Ledger) : Prop := ∀ s, (l.phase s).bridges < 0x100000000

theorem countsFit_empty : CountsFit {} := fun _ => Nat.zero_lt_succ _

theorem Takes.countsFit (ht : l.Takes a l') (hl : l.CountsFit) : l'.CountsFit := by
  have hinsert : ∀ {t : Site} {q : Phase}, q.bridges < 0x100000000 → ∀ s,
      ((l.phases.insert t q).findD s .untouched).bridges < 0x100000000 := by
    intro t q hq s
    rw [phase_insert l]
    split_ifs
    · exact hq
    · exact hl s
  cases ht with
  | begin e k hp => exact hinsert (Nat.zero_lt_succ _)
  | abort cause e k hp => exact hinsert (Nat.zero_lt_succ _)
  | abortBridge cause e k hp => exact hl
  | loop e k h ops kind address length hp hn => exact hinsert (Nat.zero_lt_succ _)
  | bridge e parent b i ops address length hs he hp =>
      obtain ⟨-, hroom, rfl⟩ := bridgedPhase_eq_ok_iff.1 hp
      exact hinsert hroom
  | retireBridge hb => exact hl
  | retireLoop hb hs hp => exact hinsert (Nat.zero_lt_succ _)
  | retireReplaced hb hs hp => exact hl

theorem CountsFit.foldl_perform (hl : l.CountsFit) (acts : List Act) :
    (acts.foldl perform l).CountsFit := by
  induction acts generalizing l with
  | nil => exact hl
  | cons a acts ih =>
      rw [List.foldl_cons]
      cases ht : a.step l with
      | none =>
          rw [perform_of_none ht]
          exact ih hl
      | some l' =>
          rw [perform_of_some ht]
          exact ih ((step_eq_some_iff.1 ht).countsFit hl)

/-- A site lives by what is accepted of what concerns it. -/
theorem phase_foldl_perform (hn : (as.filterMap Act.announced?).Nodup) {acts : List Act}
    (hk : l.Known as) (hacts : ∀ a ∈ accepted l acts, a ∈ as) (s : Site) :
    (acts.foldl perform l).phase s =
      (concerning as s (accepted l acts)).foldl Phase.after (l.phase s) := by
  induction acts generalizing l with
  | nil => rfl
  | cons a acts ih =>
      rw [List.foldl_cons]
      cases ht : a.step l with
      | none =>
          rw [accepted_cons_none ht] at hacts ⊢
          rw [perform_of_none ht]
          exact ih hk hacts
      | some l' =>
          rw [accepted_cons_some ht] at hacts ⊢
          obtain ⟨ha, hacts⟩ := List.forall_mem_cons.1 hacts
          have htakes := step_eq_some_iff.1 ht
          have hphase := htakes.phase hk (oneSite_of_nodup hn) (fun h p hp s => hk.not_live hn hp) s
          rw [perform_of_some ht, ih (hk.takes ha htakes) hacts, hphase, concerning, concerning,
            List.filter_cons]
          by_cases hs : a.site? as = some s
          · simp only [hs, decide_true, if_true, List.foldl_cons]
          · simp only [hs, decide_false, if_false, Bool.false_eq_true]

end Ledger

end

end HotLoop.Lifecycle
