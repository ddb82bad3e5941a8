import HotLoop.Code.Cache
import HotLoop.Proofs.Versions

/-!
# The invariant of the code cache

`Cache.Sound` ties the maps of the cache to one another and to the version table: a site has at most
one live loop, a loop knows only bridges that are live and hang off it, and a live artifact depends
on every location whose current version it guards. `Cache.Without` says that a cache is another one
without some artifacts; it is what retiring does, and it keeps the invariant.
-/

namespace HotLoop.Code

open Trace Versions

/-- An artifact after some bridges have gone: it has forgotten those, and is the same otherwise. -/
structure Artifact.Loses (a a' : Artifact) (gone : List Handle) : Prop where
  handle : a'.handle = a.handle
  kind : a'.kind = a.kind
  site : a'.site = a.site
  guards : a'.guards = a.guards
  operations : a'.operations = a.operations
  entries : a'.entries = a.entries
  bridges : ∀ i b, a'.bridges.find? i = some b ↔ a.bridges.find? i = some b ∧ b ∉ gone

theorem Artifact.Loses.trans {a a' a'' : Artifact} {gone gone' : List Handle}
    (h : a.Loses a' gone) (h' : a'.Loses a'' gone') : a.Loses a'' (gone ++ gone') where
  handle := h'.handle.trans h.handle
  kind := h'.kind.trans h.kind
  site := h'.site.trans h.site
  guards := h'.guards.trans h.guards
  operations := h'.operations.trans h.operations
  entries := h'.entries.trans h.entries
  bridges := fun i b => by
    rw [h'.bridges, h.bridges, List.mem_append, not_or, and_assoc]

theorem Artifact.loses_self {a : Artifact} {gone : List Handle}
    (h : ∀ i b, a.bridges.find? i = some b → b ∉ gone) : a.Loses a gone :=
  ⟨rfl, rfl, rfl, rfl, rfl, rfl, fun i b => ⟨fun hb => ⟨hb, h i b hb⟩, fun hb => hb.1⟩⟩

theorem Artifact.loses_detach {a : Artifact} {i : Nat} {b : Handle}
    (h : ∀ k, a.bridges.find? k = some b → k = i) : a.Loses (a.detach i b) [b] := by
  unfold Artifact.detach
  split_ifs with hi
  · refine ⟨rfl, rfl, rfl, rfl, rfl, rfl, fun k d => ?_⟩
    simp only [FinMap.find?_erase, List.mem_singleton]
    split_ifs with hk
    · subst hk
      rw [hi]
      simp [eq_comm]
    · refine ⟨fun hd => ⟨hd, ?_⟩, fun hd => hd.1⟩
      rintro rfl
      exact hk (h k hd)
  · refine Artifact.loses_self fun k d hd hm => hi ?_
    obtain rfl := List.mem_singleton.1 hm
    rw [← h k hd]
    exact hd

namespace Cache

structure Sound (c : Cache) : Prop where
  versions : c.versions.Sound
  handle : ∀ h a, c.get? h = some a → a.handle = h ∧ h.number < c.next
  loop_iff : ∀ s h, c.loop? s = some h ↔ ∃ a, c.get? h = some a ∧ a.kind = .loop ∧ a.site = s
  bridge : ∀ h a i b, c.get? h = some a → a.bridges.find? i = some b →
    a.kind = .loop ∧ ∃ ba, c.get? b = some ba ∧ ba.kind = .bridge h i ∧ ba.site = a.site
  parent : ∀ b ba p i, c.get? b = some ba → ba.kind = .bridge p i →
    p.number < c.next ∧ ∀ pa, c.get? p = some pa → pa.kind = .loop ∧ pa.site = ba.site
  issued : ∀ h a, c.get? h = some a → ∀ v ∈ a.guards.captured, c.versions.Issued v
  registered : ∀ h a, c.get? h = some a → ∀ v ∈ a.guards.captured, c.versions.IsCurrent v →
    h ∈ c.versions.dependents v.location
  dependent : ∀ l d, d ∈ c.versions.dependents l →
    d.number < c.next ∧ ∀ a, c.get? d = some a → ∃ v ∈ a.guards.captured, v.location = l

theorem isLive_iff (c : Cache) (h : Handle) : c.isLive h = true ↔ ∃ a, c.get? h = some a :=
  Option.isSome_iff_exists

theorem isLive_eq_false_iff (c : Cache) (h : Handle) : c.isLive h = false ↔ c.get? h = none :=
  Option.isSome_eq_false_iff.trans Option.isNone_iff_eq_none

theorem bridge?_eq_some {c : Cache} {p b : Handle} {i : Nat} (hb : c.bridge? p i = some b) :
    ∃ a, c.get? p = some a ∧ a.bridges.find? i = some b := by
  unfold bridge? at hb
  obtain ⟨a, ha, hb⟩ := Option.bind_eq_some_iff.1 hb
  obtain ⟨b', hb', hl⟩ := Option.bind_eq_some_iff.1 hb
  split_ifs at hl
  exact ⟨a, ha, Option.some.inj hl ▸ hb'⟩

theorem sound_empty (n : Nat) : Sound { versions := { table := n } } where
  versions := Versions.sound_empty n
  handle := fun h a ha => by cases ha
  loop_iff := fun s h => by
    constructor
    · intro hl
      cases hl
    · rintro ⟨a, ha, -⟩
      cases ha
  bridge := fun h a i b ha => by cases ha
  parent := fun b ba p i hb => by cases hb
  issued := fun h a ha => by cases ha
  registered := fun h a ha => by cases ha
  dependent := fun l d hd => by cases hd

/-! ## Taking artifacts out -/

/-- `c'` is the cache `c` without the artifacts `gone`, which depend on nothing any more. -/
structure Without (c c' : Cache) (gone : List Handle) : Prop where
  versions : SameVersions c.versions c'.versions
  nodup : ∀ l, (c'.versions.dependents l).Nodup
  next : c'.next = c.next
  listed : ∀ h ∈ gone, ∃ a, c.get? h = some a
  dead : ∀ h, c'.get? h = none ↔ h ∈ gone ∨ c.get? h = none
  live : ∀ h a', c'.get? h = some a' → ∃ a, c.get? h = some a ∧ a.Loses a' gone
  loops : ∀ s h, c'.loop? s = some h ↔ c.loop? s = some h ∧ h ∉ gone
  dependents : ∀ l d, d ∈ c'.versions.dependents l ↔ d ∈ c.versions.dependents l ∧ d ∉ gone

namespace Without

variable {c c' c'' : Cache} {gone gone' : List Handle}

theorem refl (hc : c.Sound) : c.Without c [] where
  versions := SameVersions.refl _
  nodup := hc.versions.nodup
  next := rfl
  listed := fun h hm => absurd hm List.not_mem_nil
  dead := fun h => by simp
  live := fun h a ha => ⟨a, ha, Artifact.loses_self fun i b _ => List.not_mem_nil⟩
  loops := fun s h => by simp
  dependents := fun l d => by simp

theorem trans (h : c.Without c' gone) (h' : c'.Without c'' gone') :
    c.Without c'' (gone ++ gone') where
  versions := h.versions.trans h'.versions
  nodup := h'.nodup
  next := h'.next.trans h.next
  listed := fun j hj => by
    rcases List.mem_append.1 hj with hj | hj
    · exact h.listed j hj
    · obtain ⟨a', ha'⟩ := h'.listed j hj
      obtain ⟨a, ha, -⟩ := h.live j a' ha'
      exact ⟨a, ha⟩
  dead := fun j => by
    rw [h'.dead, h.dead, List.mem_append]
    tauto
  live := fun j a'' ha'' => by
    obtain ⟨a', ha', hl'⟩ := h'.live j a'' ha''
    obtain ⟨a, ha, hl⟩ := h.live j a' ha'
    exact ⟨a, ha, hl.trans hl'⟩
  loops := fun s j => by rw [h'.loops, h.loops, List.mem_append, not_or, and_assoc]
  dependents := fun l d => by rw [h'.dependents, h.dependents, List.mem_append, not_or, and_assoc]

theorem not_mem {h : Handle} {a' : Artifact} (hw : c.Without c' gone) (ha : c'.get? h = some a') :
    h ∉ gone := by
  intro hm
  rw [(hw.dead h).2 (Or.inl hm)] at ha
  cases ha

theorem kept {h : Handle} {a : Artifact} (hw : c.Without c' gone) (ha : c.get? h = some a)
    (hm : h ∉ gone) : ∃ a', c'.get? h = some a' ∧ a.Loses a' gone := by
  cases ha' : c'.get? h with
  | none =>
      rcases (hw.dead h).1 ha' with hg | hn
      · exact absurd hg hm
      · rw [ha] at hn
        cases hn
  | some a' =>
      obtain ⟨b, hb, hl⟩ := hw.live h a' ha'
      obtain rfl := Option.some.inj (ha.symm.trans hb)
      exact ⟨a', rfl, hl⟩

/-- Taking artifacts out keeps the invariant. -/
theorem sound (hw : c.Without c' gone) (hc : c.Sound) : c'.Sound where
  versions := hc.versions.of_sameVersions hw.versions hw.nodup
  handle := fun h a' ha' => by
    obtain ⟨a, ha, hl⟩ := hw.live h a' ha'
    obtain ⟨he, hlt⟩ := hc.handle h a ha
    exact ⟨hl.handle.trans he, hw.next ▸ hlt⟩
  loop_iff := fun s h => by
    rw [hw.loops, hc.loop_iff]
    constructor
    · rintro ⟨⟨a, ha, hk, hs⟩, hm⟩
      obtain ⟨a', ha', hl⟩ := hw.kept ha hm
      exact ⟨a', ha', hl.kind.trans hk, hl.site.trans hs⟩
    · rintro ⟨a', ha', hk, hs⟩
      obtain ⟨a, ha, hl⟩ := hw.live h a' ha'
      exact ⟨⟨a, ha, hl.kind.symm.trans hk, hl.site.symm.trans hs⟩, hw.not_mem ha'⟩
  bridge := fun h a' i b ha' hb => by
    obtain ⟨a, ha, hl⟩ := hw.live h a' ha'
    obtain ⟨hb, hm⟩ := (hl.bridges i b).1 hb
    obtain ⟨hk, ba, hba, hbk, hbs⟩ := hc.bridge h a i b ha hb
    obtain ⟨ba', hba', hbl⟩ := hw.kept hba hm
    exact ⟨hl.kind.trans hk, ba', hba', hbl.kind.trans hbk,
      hbl.site.trans (hbs.trans hl.site.symm)⟩
  parent := fun b ba' p i hba' hk => by
    obtain ⟨ba, hba, hl⟩ := hw.live b ba' hba'
    obtain ⟨hlt, hp⟩ := hc.parent b ba p i hba (hl.kind.symm.trans hk)
    refine ⟨hw.next ▸ hlt, fun pa' hpa' => ?_⟩
    obtain ⟨pa, hpa, hpl⟩ := hw.live p pa' hpa'
    obtain ⟨hpk, hps⟩ := hp pa hpa
    exact ⟨hpl.kind.trans hpk, hpl.site.trans (hps.trans hl.site.symm)⟩
  issued := fun h a' ha' v hv => by
    obtain ⟨a, ha, hl⟩ := hw.live h a' ha'
    rw [hl.guards] at hv
    exact (hw.versions.issued_iff v).2 (hc.issued h a ha v hv)
  registered := fun h a' ha' v hv hcur => by
    obtain ⟨a, ha, hl⟩ := hw.live h a' ha'
    rw [hl.guards] at hv
    rw [hw.versions.isCurrent_iff] at hcur
    exact (hw.dependents _ h).2 ⟨hc.registered h a ha v hv hcur, hw.not_mem ha'⟩
  dependent := fun l d hd => by
    obtain ⟨hlt, hg⟩ := hc.dependent l d ((hw.dependents l d).1 hd).1
    refine ⟨hw.next ▸ hlt, fun a' ha' => ?_⟩
    obtain ⟨a, ha, hl⟩ := hw.live d a' ha'
    rw [hl.guards]
    exact hg a ha

end Without

/-! ## Retiring -/

@[simp] theorem get?_remove (c : Cache) (h : Handle) (a : Artifact) (j : Handle) :
    (c.remove h a).get? j = if j = h then none else c.get? j :=
  FinMap.find?_erase c.artifacts h j

theorem removeAll_spec (hs : List Handle) (c : Cache) (hn : ∀ l, (c.versions.dependents l).Nodup) :
    SameVersions c.versions (c.removeAll hs).1.versions ∧
      (∀ l, ((c.removeAll hs).1.versions.dependents l).Nodup) ∧
      (c.removeAll hs).1.next = c.next ∧ (c.removeAll hs).1.loops = c.loops ∧
      (∀ j, (c.removeAll hs).1.get? j = if j ∈ hs then none else c.get? j) ∧
      (∀ j, j ∈ (c.removeAll hs).2 ↔ j ∈ hs ∧ ∃ a, c.get? j = some a) ∧
      ∀ l d, d ∈ (c.removeAll hs).1.versions.dependents l ↔ d ∈ c.versions.dependents l ∧
        ¬ (d ∈ hs ∧ ∃ a, c.get? d = some a ∧ ∃ v ∈ a.guards.captured, v.location = l) := by
  induction hs generalizing c with
  | nil => exact ⟨SameVersions.refl _, hn, rfl, rfl, fun j => rfl, fun j => by simp [removeAll],
      fun l d => by simp [removeAll]⟩
  | cons h hs ih =>
      cases ha : c.get? h with
      | none =>
          obtain ⟨hv, hn', hx, hl, hg, hm, hd⟩ := ih c hn
          simp only [removeAll, ha]
          refine ⟨hv, hn', hx, hl, fun j => ?_, fun j => ?_, fun l d => ?_⟩
          · rw [hg]
            by_cases hj : j = h
            · simp [hj, ha]
            · simp [hj]
          · rw [hm]
            by_cases hj : j = h
            · simp [hj, ha]
            · simp [hj]
          · rw [hd]
            by_cases hj : d = h
            · simp [hj, ha]
            · simp [hj]
      | some a =>
          obtain ⟨hv₁, hd₁, hn₁⟩ := release_spec h a.guards.captured hn
          obtain ⟨hv, hn', hx, hl, hg, hm, hd⟩ := ih (c.remove h a) hn₁
          simp only [removeAll, ha]
          refine ⟨hv₁.trans hv, hn', hx, hl, fun j => ?_, fun j => ?_, fun l d => ?_⟩
          · rw [hg, get?_remove]
            by_cases hj : j = h
            · simp [hj]
            · simp [hj]
          · rw [List.mem_cons, hm, get?_remove]
            by_cases hj : j = h
            · simp [hj, ha]
            · simp [hj]
          · rw [hd, get?_remove]
            change d ∈ (c.versions.release h a.guards.captured).dependents l ∧ _ ↔ _
            rw [hd₁]
            by_cases hj : d = h
            · simp [hj, ha]
            · simp [hj]

theorem Sound.captured_of_dependent {c : Cache} (hc : c.Sound) {h : Handle} {a : Artifact}
    (ha : c.get? h = some a) {l : Location} (hd : h ∈ c.versions.dependents l) :
    ∃ v ∈ a.guards.captured, v.location = l :=
  (hc.dependent l h hd).2 a ha

/-- The bridges that a loop knows are told apart by the index of their guard. -/
theorem Sound.bridge_unique {c : Cache} (hc : c.Sound) {h h' b : Handle} {a a' : Artifact}
    {i i' : Nat} (ha : c.get? h = some a) (hb : a.bridges.find? i = some b)
    (ha' : c.get? h' = some a') (hb' : a'.bridges.find? i' = some b) : h = h' ∧ i = i' := by
  obtain ⟨-, ba, hba, hk, -⟩ := hc.bridge h a i b ha hb
  obtain ⟨-, ba', hba', hk', -⟩ := hc.bridge h' a' i' b ha' hb'
  obtain rfl := Option.some.inj (hba.symm.trans hba')
  rw [hk] at hk'
  cases hk'
  exact ⟨rfl, rfl⟩

theorem Sound.bridge_ne_loop {c : Cache} (hc : c.Sound) {h j b : Handle} {a l : Artifact} {i : Nat}
    (ha : c.get? h = some a) (hb : a.bridges.find? i = some b) (hl : c.get? j = some l)
    (hk : l.kind = .loop) : b ≠ j := by
  rintro rfl
  obtain ⟨-, ba, hba, hbk, -⟩ := hc.bridge h a i b ha hb
  obtain rfl := Option.some.inj (hl.symm.trans hba)
  rw [hk] at hbk
  cases hbk

def dropLoop (c : Cache) (h : Handle) (a : Artifact) : Cache :=
  if c.loops.find? a.site = some h then { c.remove h a with loops := c.loops.erase a.site }
  else c.remove h a

section Equations

variable {c : Cache} {h : Handle} {a : Artifact}

theorem retire_of_dead (ha : c.get? h = none) : c.retire h = (c, []) := by
  simp only [retire, ha]

theorem retire_of_loop (ha : c.get? h = some a) (hk : a.kind = .loop) :
    c.retire h =
      let (c', bridges) := (c.dropLoop h a).removeAll a.bridges.values
      ({ c' with retiredCount := c'.retiredCount + (bridges.length + 1) }, h :: bridges) := by
  simp only [retire, ha, hk]
  rfl

theorem retire_of_bridge (ha : c.get? h = some a) {p : Handle} {i : Nat}
    (hk : a.kind = .bridge p i) :
    c.retire h =
      ({ c.remove h a with
          artifacts := (c.remove h a).artifacts.modify p fun b => b.detach i h
          retiredCount := c.retiredCount + 1 }, [h]) := by
  simp only [retire, ha, hk]
  rfl

@[simp] theorem get?_dropLoop (j : Handle) :
    (c.dropLoop h a).get? j = if j = h then none else c.get? j := by
  rw [← get?_remove c h a j]
  unfold dropLoop
  split_ifs <;> rfl

theorem versions_dropLoop :
    (c.dropLoop h a).versions = c.versions.release h a.guards.captured := by
  unfold dropLoop
  split_ifs <;> rfl

theorem next_dropLoop : (c.dropLoop h a).next = c.next := by
  unfold dropLoop
  split_ifs <;> rfl

theorem loops_dropLoop (hl : c.loops.find? a.site = some h) :
    (c.dropLoop h a).loops = c.loops.erase a.site := by
  rw [dropLoop, if_pos hl]

end Equations

/-- A retired loop goes with the bridges that it knows, and a retired bridge goes alone. -/
theorem mem_retire {c : Cache} (hc : c.Sound) {h j : Handle} :
    j ∈ (c.retire h).2 ↔
      ∃ a, c.get? h = some a ∧ (j = h ∨ ∃ i, a.bridges.find? i = some j) := by
  cases ha : c.get? h with
  | none => simp [retire_of_dead ha]
  | some a =>
      have hn := (release_spec h a.guards.captured hc.versions.nodup).2.2
      simp only [Option.some.injEq, exists_eq_left']
      cases hk : a.kind with
      | loop =>
          obtain ⟨-, -, -, -, -, hm, -⟩ :=
            removeAll_spec a.bridges.values (c.dropLoop h a) (versions_dropLoop ▸ hn)
          rw [retire_of_loop ha hk, List.mem_cons, hm, FinMap.mem_values_iff]
          refine or_congr_right ⟨fun hj => hj.1, fun hj => ⟨hj, ?_⟩⟩
          obtain ⟨i, hi⟩ := hj
          obtain ⟨-, ba, hba, -, -⟩ := hc.bridge h a i j ha hi
          rw [get?_dropLoop, if_neg (hc.bridge_ne_loop ha hi ha hk)]
          exact ⟨ba, hba⟩
      | bridge p i =>
          rw [retire_of_bridge ha hk, List.mem_singleton]
          refine ⟨Or.inl, fun hj => hj.elim id ?_⟩
          rintro ⟨k, hb⟩
          have hl := (hc.bridge h a k j ha hb).1
          rw [hk] at hl
          cases hl

theorem Sound.exists_of_mem_bridges {c : Cache} (hc : c.Sound) {h b : Handle} {a : Artifact}
    (ha : c.get? h = some a) (hb : b ∈ a.bridges.values) :
    ∃ i, a.bridges.find? i = some b ∧ ∃ ba, c.get? b = some ba := by
  obtain ⟨i, hi⟩ := (FinMap.mem_values_iff _ _).1 hb
  obtain ⟨-, ba, hba, -, -⟩ := hc.bridge h a i b ha hi
  exact ⟨i, hi, ba, hba⟩

/-- What is left of the maps of the cache when a loop is retired. -/
theorem retire_loop_spec {c : Cache} (hc : c.Sound) {h : Handle} {a : Artifact}
    (ha : c.get? h = some a) (hk : a.kind = .loop) :
    SameVersions c.versions (c.retire h).1.versions ∧
      (∀ l, ((c.retire h).1.versions.dependents l).Nodup) ∧ (c.retire h).1.next = c.next ∧
      (∀ s, (c.retire h).1.loop? s = if s = a.site then none else c.loop? s) ∧
      (∀ j, (c.retire h).1.get? j = if j = h ∨ j ∈ a.bridges.values then none else c.get? j) ∧
      ∀ l d, d ∈ (c.retire h).1.versions.dependents l ↔
        d ∈ c.versions.dependents l ∧ ¬ (d = h ∨ d ∈ a.bridges.values) := by
  obtain ⟨hv₁, hd₁, hn₁⟩ := release_spec h a.guards.captured hc.versions.nodup
  obtain ⟨hv, hn, hx, hl, hg, -, hd⟩ :=
    removeAll_spec a.bridges.values (c.dropLoop h a) (versions_dropLoop ▸ hn₁)
  have hsite : c.loops.find? a.site = some h := (hc.loop_iff a.site h).2 ⟨a, ha, hk, rfl⟩
  rw [versions_dropLoop] at hv hd
  rw [loops_dropLoop hsite] at hl
  rw [retire_of_loop ha hk]
  refine ⟨hv₁.trans hv, hn, hx.trans next_dropLoop, fun s => ?_, fun j => ?_, fun l d => ?_⟩
  · rw [loop?, hl.trans rfl]
    exact FinMap.find?_erase c.loops a.site s
  · refine (hg j).trans ?_
    rw [get?_dropLoop]
    split_ifs <;> simp_all
  · refine (hd l d).trans ?_
    rw [hd₁, get?_dropLoop, and_assoc, not_or]
    refine and_congr_right fun hld => ?_
    by_cases hdh : d = h
    · subst hdh
      simp [hc.captured_of_dependent ha hld]
    · have hv : d ∈ a.bridges.values →
          ∃ ba, c.get? d = some ba ∧ ∃ v ∈ ba.guards.captured, v.location = l := by
        intro hv
        obtain ⟨i, hi, ba, hba⟩ := hc.exists_of_mem_bridges ha hv
        exact ⟨ba, hba, hc.captured_of_dependent hba hld⟩
      rw [if_neg hdh, and_iff_left_of_imp hv]
      simp [hdh]

theorem without_retire_loop {c : Cache} (hc : c.Sound) {h : Handle} {a : Artifact}
    (ha : c.get? h = some a) (hk : a.kind = .loop) :
    c.Without (c.retire h).1 (c.retire h).2 := by
  obtain ⟨hv, hn, hx, hl, hget, hdep⟩ := retire_loop_spec hc ha hk
  have hmem : ∀ j, j ∈ (c.retire h).2 ↔ j = h ∨ j ∈ a.bridges.values := by
    intro j
    rw [mem_retire hc, FinMap.mem_values_iff]
    simp [ha]
  constructor
  case versions => exact hv
  case nodup => exact hn
  case next => exact hx
  case listed =>
    intro j hj
    rcases (hmem j).1 hj with rfl | hj
    · exact ⟨a, ha⟩
    · obtain ⟨-, -, hba⟩ := hc.exists_of_mem_bridges ha hj
      exact hba
  case dead =>
    intro j
    rw [hget, hmem]
    split_ifs with hj <;> simp [hj]
  case live =>
    intro j a' ha'
    rw [hget] at ha'
    split_ifs at ha' with hj
    refine ⟨a', ha', Artifact.loses_self fun i b hb hm => ?_⟩
    rcases (hmem b).1 hm with rfl | hm
    · exact hc.bridge_ne_loop ha' hb ha hk rfl
    · obtain ⟨i', hi', -⟩ := hc.exists_of_mem_bridges ha hm
      exact hj (Or.inl (hc.bridge_unique ha' hb ha hi').1)
  case loops =>
    intro s j
    have hsite : c.loop? a.site = some h := (hc.loop_iff a.site h).2 ⟨a, ha, hk, rfl⟩
    rw [hl, hmem]
    split_ifs with hs
    · subst hs
      simp only [false_iff, not_and, not_not]
      intro hj
      exact Or.inl (Option.some.inj (hj.symm.trans hsite))
    · refine ⟨fun hj => ⟨hj, ?_⟩, fun hj => hj.1⟩
      obtain ⟨la, hla, hlk, hls⟩ := (hc.loop_iff s j).1 hj
      rintro (rfl | hm)
      · exact hs (hls.symm.trans (congrArg Artifact.site (Option.some.inj (hla.symm.trans ha))))
      · obtain ⟨i, hi, -⟩ := hc.exists_of_mem_bridges ha hm
        exact hc.bridge_ne_loop ha hi hla hlk rfl
  case dependents =>
    intro l d
    rw [hdep, hmem]

theorem get?_retire_bridge {c : Cache} {h p : Handle} {a : Artifact} {i : Nat}
    (ha : c.get? h = some a) (hk : a.kind = .bridge p i) (j : Handle) :
    (c.retire h).1.get? j =
      if j = h then none else (c.get? j).map fun b => if j = p then b.detach i h else b := by
  rw [retire_of_bridge ha hk]
  refine (FinMap.find?_modify _ p j _).trans ?_
  rw [show (c.remove h a).artifacts.find? j = _ from get?_remove c h a j]
  split_ifs <;> simp

theorem without_retire_bridge {c : Cache} (hc : c.Sound) {h p : Handle} {a : Artifact} {i : Nat}
    (ha : c.get? h = some a) (hk : a.kind = .bridge p i) :
    c.Without (c.retire h).1 [h] := by
  obtain ⟨hv, hd, hn⟩ := release_spec h a.guards.captured hc.versions.nodup
  have hget := get?_retire_bridge ha hk
  rw [retire_of_bridge ha hk] at hget ⊢
  constructor
  case versions => exact hv
  case nodup => exact hn
  case next => rfl
  case listed =>
    intro j hj
    rw [List.mem_singleton.1 hj]
    exact ⟨a, ha⟩
  case dead =>
    intro j
    rw [hget]
    split_ifs with hj <;> simp [hj]
  case live =>
    intro j a' ha'
    have hj : j ≠ h := by
      rintro rfl
      simp [hget] at ha'
    rw [hget, if_neg hj] at ha'
    obtain ⟨b, hb, rfl⟩ := Option.map_eq_some_iff.1 ha'
    refine ⟨b, hb, ?_⟩
    -- the bridge is known to its parent only, and there under its own index
    have hone : ∀ k, b.bridges.find? k = some h → j = p ∧ k = i := by
      intro k hbk
      obtain ⟨-, ba, hba, hbk, -⟩ := hc.bridge j b k h hb hbk
      obtain rfl := Option.some.inj (ha.symm.trans hba)
      rw [hk] at hbk
      cases hbk
      exact ⟨rfl, rfl⟩
    split_ifs with hjp
    · exact Artifact.loses_detach fun k hbk => (hone k hbk).2
    · refine Artifact.loses_self fun k d hd hm => hjp (hone k ?_).1
      rw [← List.mem_singleton.1 hm]
      exact hd
  case loops =>
    intro s j
    refine ⟨fun hj => ⟨hj, ?_⟩, fun hj => hj.1⟩
    rw [List.mem_singleton]
    rintro rfl
    obtain ⟨la, hla, hlk, -⟩ := (hc.loop_iff s j).1 hj
    obtain rfl := Option.some.inj (ha.symm.trans hla)
    rw [hk] at hlk
    cases hlk
  case dependents =>
    intro l d
    refine (hd l d).trans (and_congr_right fun hld => ?_)
    rw [List.mem_singleton, not_and]
    refine ⟨fun hne he => ?_, fun hne he => absurd he hne⟩
    subst he
    exact hne rfl (hc.captured_of_dependent ha hld)

/-- Retiring takes out exactly what it lists. -/
theorem without_retire {c : Cache} (hc : c.Sound) (h : Handle) :
    c.Without (c.retire h).1 (c.retire h).2 := by
  cases ha : c.get? h with
  | none =>
      rw [retire_of_dead ha]
      exact Without.refl hc
  | some a =>
      cases hk : a.kind with
      | loop => exact without_retire_loop hc ha hk
      | bridge p i =>
          have hw := without_retire_bridge hc ha hk
          rw [retire_of_bridge ha hk] at hw ⊢
          exact hw

theorem without_retireAll (hs : List Handle) {c : Cache} (hc : c.Sound) :
    c.Without (c.retireAll hs).1 (c.retireAll hs).2 := by
  induction hs generalizing c with
  | nil => exact Without.refl hc
  | cons h hs ih =>
      have hw := without_retire hc h
      exact hw.trans (ih (hw.sound hc))

theorem mem_retireAll {hs : List Handle} {c : Cache} (hc : c.Sound) {h : Handle} {a : Artifact}
    (hm : h ∈ hs) (ha : c.get? h = some a) : h ∈ (c.retireAll hs).2 := by
  induction hs generalizing c a with
  | nil => cases hm
  | cons j hs ih =>
      have hw := without_retire hc j
      change h ∈ (c.retire j).2 ++ ((c.retire j).1.retireAll hs).2
      rw [List.mem_append]
      by_cases hj : h ∈ (c.retire j).2
      · exact Or.inl hj
      · refine Or.inr ?_
        have hne : h ≠ j := by
          rintro rfl
          exact hj ((mem_retire hc).2 ⟨a, ha, Or.inl rfl⟩)
        obtain ⟨a', ha', -⟩ := hw.kept ha hj
        exact ih (hw.sound hc) ((List.mem_cons.1 hm).resolve_left hne) ha'

/-- A retired loop takes along the bridges that it knows. -/
theorem bridge_mem_retireAll {hs : List Handle} {c : Cache} (hc : c.Sound) {p b : Handle}
    {a : Artifact} {i : Nat} (hp : p ∈ (c.retireAll hs).2) (ha : c.get? p = some a)
    (hb : a.bridges.find? i = some b) : b ∈ (c.retireAll hs).2 := by
  induction hs generalizing c a with
  | nil => cases hp
  | cons j hs ih =>
      have hw := without_retire hc j
      change b ∈ (c.retire j).2 ++ ((c.retire j).1.retireAll hs).2
      rw [List.mem_append]
      by_cases hbj : b ∈ (c.retire j).2
      · exact Or.inl hbj
      · refine Or.inr ?_
        have hpj : p ∉ (c.retire j).2 := by
          intro hpj
          obtain ⟨ja, hja, rfl | ⟨k, hk⟩⟩ := (mem_retire hc).1 hpj
          · exact hbj ((mem_retire hc).2 ⟨a, ha, Or.inr ⟨i, hb⟩⟩)
          · exact hc.bridge_ne_loop hja hk ha (hc.bridge p a i b ha hb).1 rfl
        obtain ⟨a', ha', hl⟩ := hw.kept ha hpj
        exact ih (hw.sound hc) ((List.mem_append.1 hp).resolve_left hpj) ha'
          ((hl.bridges i b).2 ⟨hb, hbj⟩)

/-! ## Versions alone -/

/-- Exchanging the table keeps the invariant, if issued versions stay issued and the ones that are
current afterwards have kept their dependents. -/
theorem Sound.of_versions {c : Cache} (hc : c.Sound) {t : Versions} (ht : t.Sound)
    (hi : ∀ v, c.versions.Issued v → t.Issued v)
    (hd : ∀ l d, d ∈ t.dependents l → d ∈ c.versions.dependents l)
    (hk : ∀ v, c.versions.Issued v → t.IsCurrent v →
      c.versions.IsCurrent v ∧ t.dependents v.location = c.versions.dependents v.location) :
    Sound { c with versions := t } where
  versions := ht
  handle := hc.handle
  loop_iff := hc.loop_iff
  bridge := hc.bridge
  parent := hc.parent
  issued := fun h a ha v hv => hi v (hc.issued h a ha v hv)
  registered := fun h a ha v hv hcur => by
    obtain ⟨hcur, hdep⟩ := hk v (hc.issued h a ha v hv) hcur
    exact hdep.symm ▸ hc.registered h a ha v hv hcur
  dependent := fun l d hm => hc.dependent l d (hd l d hm)

theorem Sound.read {c : Cache} (hc : c.Sound) (l : Location) :
    Sound { c with versions := (c.versions.read l).1 } := by
  refine hc.of_versions (hc.versions.read l) (fun v hv => hv.read l) (fun j d hd => ?_)
    fun v hv hcur => ⟨(hv.isCurrent_read_iff l).1 hcur, dependents_read _ _ _⟩
  rwa [dependents_read] at hd

theorem Sound.invalidate {c : Cache} (hc : c.Sound) {l : Location} {t : Versions}
    {i : Invalidation} (ht : c.versions.invalidate? l = some (t, i)) :
    Sound { c with versions := t } := by
  have hd := (invalidate?_spec ht).2.2.2.2.2.2
  refine hc.of_versions (hc.versions.invalidate ht) (fun v hv => hv.invalidate hc.versions ht)
    (fun j d hm => ?_) fun v hv hcur => ?_
  · rw [hd] at hm
    split_ifs at hm
    · cases hm
    · exact hm
  · obtain ⟨hcur, hne⟩ := (hv.isCurrent_invalidate_iff hc.versions ht).1 hcur
    exact ⟨hcur, by rw [hd, if_neg hne]⟩

/-- A write retires what depended on the written location. What is left has no guard there, so guards
that were current before are current still. -/
theorem Sound.current_of_revoked {c : Cache} (hc : c.Sound) {l : Location} {t : Versions}
    {i : Invalidation} (hi : c.versions.invalidate? l = some (t, i)) {h : Handle} {a' : Artifact}
    (ha' : (retireAll { c with versions := t } i.dependents).1.get? h = some a')
    (hg : ∀ a, c.get? h = some a → ∀ v ∈ a.guards.captured, c.versions.IsCurrent v) :
    ∀ v ∈ a'.guards.captured,
      (retireAll { c with versions := t } i.dependents).1.versions.IsCurrent v := by
  have hc₁ : Sound { c with versions := t } := hc.invalidate hi
  have hw := without_retireAll i.dependents hc₁
  obtain ⟨a, ha, hl⟩ := hw.live h a' ha'
  intro v hv
  rw [hl.guards] at hv
  have hcur := hg a ha v hv
  rw [hw.versions.isCurrent_iff, (hc.issued h a ha v hv).isCurrent_invalidate_iff hc.versions hi]
  refine ⟨hcur, ?_⟩
  rintro rfl
  apply hw.not_mem ha'
  apply mem_retireAll hc₁ _ ha
  rw [(invalidate?_spec hi).2.2.1]
  exact hc.registered h a ha v hv hcur

end Cache

end HotLoop.Code
