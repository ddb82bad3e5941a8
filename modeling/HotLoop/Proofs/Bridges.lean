import HotLoop.Proofs.Install

/-!
# Bridges and the loops that know them

A bridge hangs off the guard of a loop, and a loop knows one bridge for each index of a guard. The
two need not agree: a bridge that is attached where another one hangs takes its place in the loop,
and both stay live. `HangsOff` and `Knows` are followed here through the operations of the cache.
-/

namespace HotLoop.Code

open Trace

namespace Cache

/-- The bridge `b` is live and was attached to the guard `i` of `p`. -/
def HangsOff (c : Cache) (b p : Handle) (i : Nat) : Prop :=
  ∃ a, c.get? b = some a ∧ a.kind = .bridge p i

/-- The loop `p` is live and has `b` as the bridge behind its guard `i`. -/
def Knows (c : Cache) (p : Handle) (i : Nat) (b : Handle) : Prop :=
  ∃ a, c.get? p = some a ∧ a.bridges.find? i = some b

variable {c c' : Cache} {p b h : Handle} {i : Nat}

theorem HangsOff.isLive (hb : c.HangsOff b p i) : c.isLive b = true := by
  obtain ⟨a, ha, -⟩ := hb
  exact (isLive_iff c b).2 ⟨a, ha⟩

theorem HangsOff.unique {q : Handle} {j : Nat} (hb : c.HangsOff b p i) (hb' : c.HangsOff b q j) :
    p = q ∧ i = j := by
  obtain ⟨a, ha, hk⟩ := hb
  obtain ⟨a', ha', hk'⟩ := hb'
  obtain rfl := Option.some.inj (ha.symm.trans ha')
  rw [hk] at hk'
  cases hk'
  exact ⟨rfl, rfl⟩

theorem Sound.of_knows (hc : c.Sound) (hk : c.Knows p i b) :
    (∃ a, c.get? p = some a ∧ a.kind = .loop) ∧ c.HangsOff b p i := by
  obtain ⟨pa, hp, hb⟩ := hk
  obtain ⟨hloop, a, ha, hkind, -⟩ := hc.bridge p pa i b hp hb
  exact ⟨⟨pa, hp, hloop⟩, a, ha, hkind⟩

theorem Sound.bridge?_eq_some_iff (hc : c.Sound) : c.bridge? p i = some b ↔ c.Knows p i b := by
  refine ⟨bridge?_eq_some, fun hk => ?_⟩
  have hl := (hc.of_knows hk).2.isLive
  obtain ⟨pa, hp, hb⟩ := hk
  simp [bridge?, hp, hb, hl]

theorem Sound.bridge?_eq_none_iff (hc : c.Sound) :
    c.bridge? p i = none ↔ ∀ b, ¬ c.Knows p i b := by
  rw [Option.eq_none_iff_forall_ne_some]
  exact forall_congr' fun b => not_congr hc.bridge?_eq_some_iff

theorem not_knows_of_dead (hd : c.get? p = none) : ¬ c.Knows p i b := by
  rintro ⟨a, ha, -⟩
  rw [hd] at ha
  cases ha

/-! ## Retiring -/

theorem Without.isLive_iff {gone : List Handle} (hw : c.Without c' gone) :
    c'.isLive h = true ↔ c.isLive h = true ∧ h ∉ gone := by
  have hd := hw.dead h
  rw [← isLive_eq_false_iff, ← isLive_eq_false_iff] at hd
  rw [← Bool.not_eq_false, ← Bool.not_eq_false, hd, not_or, and_comm]

theorem Without.hangsOff_iff {gone : List Handle} (hw : c.Without c' gone) :
    c'.HangsOff b p i ↔ c.HangsOff b p i ∧ b ∉ gone := by
  constructor
  · rintro ⟨a', ha', hk⟩
    obtain ⟨a, ha, hl⟩ := hw.live b a' ha'
    exact ⟨⟨a, ha, hl.kind.symm.trans hk⟩, hw.not_mem ha'⟩
  · rintro ⟨⟨a, ha, hk⟩, hm⟩
    obtain ⟨a', ha', hl⟩ := hw.kept ha hm
    exact ⟨a', ha', hl.kind.trans hk⟩

theorem Without.knows {gone : List Handle} (hw : c.Without c' gone) (hk : c'.Knows p i b) :
    c.Knows p i b ∧ b ∉ gone := by
  obtain ⟨a', ha', hb⟩ := hk
  obtain ⟨a, ha, hl⟩ := hw.live p a' ha'
  obtain ⟨hb, hm⟩ := (hl.bridges i b).1 hb
  exact ⟨⟨a, ha, hb⟩, hm⟩

/-- No bridge takes the place of one that is retired. -/
theorem Sound.not_knows_retire (hc : c.Sound) (hk : c.Knows p i b) (b' : Handle) :
    ¬ (c.retire b).1.Knows p i b' := by
  intro hk'
  obtain ⟨hk', hm⟩ := (without_retire hc b).knows hk'
  have hb := hc.bridge?_eq_some_iff.2 hk
  obtain rfl := Option.some.inj ((hc.bridge?_eq_some_iff.2 hk').symm.trans hb)
  obtain ⟨a, ha, -⟩ := (hc.of_knows hk).2
  exact hm ((mem_retire hc).2 ⟨a, ha, Or.inl rfl⟩)

/-- What is known after retiring was known before, and has not been retired. -/
theorem knows_retireAll_iff (hc : c.Sound) (hs : List Handle) :
    (c.retireAll hs).1.Knows p i b ↔ c.Knows p i b ∧ b ∉ (c.retireAll hs).2 := by
  have hw := without_retireAll hs hc
  constructor
  · exact hw.knows
  · rintro ⟨⟨a, ha, hb⟩, hm⟩
    -- the loop is still there, since it would have taken the bridge along
    have hp : p ∉ (c.retireAll hs).2 := fun hp => hm (bridge_mem_retireAll hc hp ha hb)
    obtain ⟨a', ha', hl⟩ := hw.kept ha hp
    exact ⟨a', ha', (hl.bridges i b).2 ⟨hb, hm⟩⟩

theorem retireAll_singleton (c : Cache) (h : Handle) : c.retireAll [h] = c.retire h := by
  simp [retireAll]

theorem vacate_eq_retireAll (c : Cache) (s : Site) :
    c.vacate s = c.retireAll (c.loop? s).toList := by
  cases hl : c.loop? s with
  | none => exact vacate_of_none hl
  | some old => exact (vacate_of_some hl).trans (retireAll_singleton c old).symm

/-- Retired are the live ones among the handles and the bridges of the loops among them, and no
others. -/
theorem mem_retireAll_iff {hs : List Handle} (hc : c.Sound) :
    h ∈ (c.retireAll hs).2 ↔
      ∃ a, c.get? h = some a ∧ (h ∈ hs ∨ ∃ p ∈ hs, ∃ i, c.Knows p i h) := by
  constructor
  · intro hm
    induction hs generalizing c with
    | nil => cases hm
    | cons j hs ih =>
        have hw := without_retire hc j
        rcases List.mem_append.1 hm with hm | hm
        · obtain ⟨a, ha, rfl | ⟨i, hi⟩⟩ := (mem_retire hc).1 hm
          · exact ⟨a, ha, Or.inl List.mem_cons_self⟩
          · obtain ⟨-, ba, hba, -⟩ := hc.bridge j a i h ha hi
            exact ⟨ba, hba, Or.inr ⟨j, List.mem_cons_self, i, a, ha, hi⟩⟩
        · obtain ⟨a', ha', hcases⟩ := ih (hw.sound hc) hm
          obtain ⟨a, ha, -⟩ := hw.live h a' ha'
          refine ⟨a, ha, ?_⟩
          rcases hcases with hh | ⟨p, hp, i, hk⟩
          · exact Or.inl (List.mem_cons_of_mem j hh)
          · exact Or.inr ⟨p, List.mem_cons_of_mem j hp, i, (hw.knows hk).1⟩
  · rintro ⟨a, ha, hh | ⟨p, hp, i, pa, hpa, hi⟩⟩
    · exact mem_retireAll hc hh ha
    · exact bridge_mem_retireAll hc (mem_retireAll hc hp hpa) hpa hi

/-! ## Entering -/

theorem isLive_entered_iff (j : Handle) :
    isLive { c with artifacts := c.artifacts.modify j Artifact.entered } h = true ↔
      c.isLive h = true := by
  rw [isLive_iff, isLive_iff]
  constructor
  · rintro ⟨a', ha'⟩
    obtain ⟨a, n, ha, -⟩ := of_get?_entered ha'
    exact ⟨a, ha⟩
  · rintro ⟨a, ha⟩
    obtain ⟨n, ha'⟩ := get?_entered_of_some ha j
    exact ⟨_, ha'⟩

theorem hangsOff_entered_iff (j : Handle) :
    HangsOff { c with artifacts := c.artifacts.modify j Artifact.entered } b p i ↔
      c.HangsOff b p i := by
  constructor
  · rintro ⟨a', ha', hk⟩
    obtain ⟨a, n, ha, rfl⟩ := of_get?_entered ha'
    exact ⟨a, ha, hk⟩
  · rintro ⟨a, ha, hk⟩
    obtain ⟨n, ha'⟩ := get?_entered_of_some ha j
    exact ⟨_, ha', hk⟩

theorem knows_entered_iff (j : Handle) :
    Knows { c with artifacts := c.artifacts.modify j Artifact.entered } p i b ↔ c.Knows p i b := by
  constructor
  · rintro ⟨a', ha', hb⟩
    obtain ⟨a, n, ha, rfl⟩ := of_get?_entered ha'
    exact ⟨a, ha, hb⟩
  · rintro ⟨a, ha, hb⟩
    obtain ⟨n, ha'⟩ := get?_entered_of_some ha j
    exact ⟨_, ha', hb⟩

/-! ## Installing -/

section

variable {s : Site} {g : Guards} {ops : List Op}

theorem isLive_putLoop_iff {j : Handle} :
    (c.putLoop h s g ops).isLive j = true ↔ j = h ∨ c.isLive j = true := by
  rw [isLive_iff, isLive_iff, get?_putLoop]
  split_ifs with hj <;> simp [hj]

theorem hangsOff_putLoop_iff (hd : c.get? h = none) :
    (c.putLoop h s g ops).HangsOff b p i ↔ c.HangsOff b p i := by
  unfold HangsOff
  rw [get?_putLoop]
  split_ifs with hb
  · rw [hb, hd]
    simp [newLoop]
  · rfl

theorem knows_putLoop_iff (hd : c.get? h = none) :
    (c.putLoop h s g ops).Knows p i b ↔ c.Knows p i b := by
  by_cases hp : p = h
  · subst hp
    refine iff_of_false ?_ (not_knows_of_dead hd)
    rintro ⟨a, ha, hb⟩
    rw [get?_putLoop, if_pos rfl] at ha
    obtain rfl := Option.some.inj ha
    cases hb
  · unfold Knows
    rw [get?_putLoop, if_neg hp]

theorem get?_putBridge_eq_none_iff {parent j : Handle} {k : Nat} :
    (c.putBridge h parent s k g ops).get? j = none ↔ j ≠ h ∧ c.get? j = none := by
  rw [get?_putBridge]
  split_ifs with hj <;> simp [hj]

theorem isLive_putBridge_iff {parent j : Handle} {k : Nat} :
    (c.putBridge h parent s k g ops).isLive j = true ↔ j = h ∨ c.isLive j = true := by
  rw [← Bool.not_eq_false, isLive_eq_false_iff, get?_putBridge_eq_none_iff, not_and_or, not_not,
    ← isLive_eq_false_iff, Bool.not_eq_false]

theorem hangsOff_putBridge_iff {parent : Handle} {k : Nat} :
    (c.putBridge h parent s k g ops).HangsOff b p i ↔
      if b = h then p = parent ∧ i = k else c.HangsOff b p i := by
  unfold HangsOff
  rw [get?_putBridge]
  split_ifs with hb hp
  · simp [newBridge, eq_comm]
  · cases c.get? b <;> simp [Artifact.attach]
  · rfl

/-- The new bridge takes the place of the one that was known at its index. -/
theorem knows_putBridge_iff {parent : Handle} {a : Artifact} {k : Nat} (hd : c.get? h = none)
    (ha : c.get? parent = some a) :
    (c.putBridge h parent s k g ops).Knows p i b ↔
      if p = parent ∧ i = k then b = h else c.Knows p i b := by
  have hne : parent ≠ h := by
    rintro rfl
    rw [hd] at ha
    cases ha
  by_cases hph : p = h
  · subst hph
    rw [if_neg fun hp => hne hp.1.symm]
    refine iff_of_false ?_ (not_knows_of_dead hd)
    rintro ⟨a, ha, hb⟩
    rw [get?_putBridge, if_pos rfl] at ha
    obtain rfl := Option.some.inj ha
    cases hb
  · unfold Knows
    rw [get?_putBridge, if_neg hph]
    by_cases hp : p = parent
    · subst hp
      simp only [ha, true_and, if_true, Option.map_some, Option.some.injEq, exists_eq_left',
        Artifact.attach, FinMap.find?_insert]
      split_ifs
      · rw [Option.some.injEq, eq_comm]
      · rfl
    · rw [if_neg hp, if_neg fun h => hp h.1]

end

end Cache

end HotLoop.Code
