import HotLoop.Proofs.Retirements

/-!
# Orders that do not matter

The dependents of a version and the bridges of a loop stand in some order, and an invalidation is
applied in that order. `Resembles` relates caches that hold the same and differ in such orders only.
What an invalidation retires, and what it leaves, is the same up to order wherever it is applied.
-/

namespace HotLoop.Code

open Trace Versions

structure Artifact.Resembles (a a' : Artifact) : Prop where
  handle : a'.handle = a.handle
  kind : a'.kind = a.kind
  site : a'.site = a.site
  guards : a'.guards = a.guards
  operations : a'.operations = a.operations
  entries : a'.entries = a.entries
  bridges : ∀ i, a'.bridges.find? i = a.bridges.find? i

theorem Artifact.Resembles.refl (a : Artifact) : a.Resembles a :=
  ⟨rfl, rfl, rfl, rfl, rfl, rfl, fun _ => rfl⟩

theorem Artifact.Resembles.symm {a a' : Artifact} (h : a.Resembles a') : a'.Resembles a :=
  ⟨h.handle.symm, h.kind.symm, h.site.symm, h.guards.symm, h.operations.symm, h.entries.symm,
    fun i => (h.bridges i).symm⟩

theorem Artifact.Resembles.of_loses {a a' b b' : Artifact} {gone gone' : List Handle}
    (h : a.Resembles a') (hl : a.Loses b gone) (hl' : a'.Loses b' gone')
    (hg : ∀ j, j ∈ gone ↔ j ∈ gone') : b.Resembles b' where
  handle := hl'.handle.trans (h.handle.trans hl.handle.symm)
  kind := hl'.kind.trans (h.kind.trans hl.kind.symm)
  site := hl'.site.trans (h.site.trans hl.site.symm)
  guards := hl'.guards.trans (h.guards.trans hl.guards.symm)
  operations := hl'.operations.trans (h.operations.trans hl.operations.symm)
  entries := hl'.entries.trans (h.entries.trans hl.entries.symm)
  bridges := fun i => Option.ext fun j => by
    rw [hl'.bridges, hl.bridges, h.bridges, hg]

namespace Cache

/-- The same cache, up to the order in which its maps and the dependents of a version stand. -/
structure Resembles (c c' : Cache) : Prop where
  versions : SameVersions c.versions c'.versions
  dependents : ∀ l, (c.versions.dependents l).Perm (c'.versions.dependents l)
  next : c'.next = c.next
  retiredCount : c'.retiredCount = c.retiredCount
  loops : ∀ s, c'.loop? s = c.loop? s
  handles : c.handles.Perm c'.handles
  artifacts : ∀ h a a', c.get? h = some a → c'.get? h = some a' → a.Resembles a'

def withBridges (c : Cache) (h : Handle) (m : FinMap Nat Handle) : Cache :=
  { c with artifacts := c.artifacts.modify h fun a => { a with bridges := m } }

theorem get?_withBridges (c : Cache) (h : Handle) (m : FinMap Nat Handle) (j : Handle) :
    (c.withBridges h m).get? j =
      if j = h then (c.get? j).map fun a => { a with bridges := m } else c.get? j :=
  FinMap.find?_modify c.artifacts h j _

theorem handles_withBridges (c : Cache) (h : Handle) (m : FinMap Nat Handle) :
    (c.withBridges h m).handles = c.handles :=
  FinMap.keys_modify c.artifacts h _

namespace Resembles

variable {c c' d d' : Cache} {h p : Handle} {i : Nat}

theorem refl (c : Cache) : c.Resembles c where
  versions := SameVersions.refl _
  dependents := fun _ => List.Perm.refl _
  next := rfl
  retiredCount := rfl
  loops := fun _ => rfl
  handles := List.Perm.refl _
  artifacts := fun _ a a' ha ha' => by
    obtain rfl := Option.some.inj (ha.symm.trans ha')
    exact Artifact.Resembles.refl a

theorem symm (hr : c.Resembles c') : c'.Resembles c where
  versions := ⟨hr.versions.table.symm, hr.versions.next.symm, fun l => (hr.versions.current l).symm⟩
  dependents := fun l => (hr.dependents l).symm
  next := hr.next.symm
  retiredCount := hr.retiredCount.symm
  loops := fun s => (hr.loops s).symm
  handles := hr.handles.symm
  artifacts := fun h a' a ha' ha => (hr.artifacts h a a' ha ha').symm

theorem live (hr : c.Resembles c') {a : Artifact} (ha : c.get? h = some a) :
    ∃ a', c'.get? h = some a' ∧ a.Resembles a' := by
  obtain ⟨a', ha'⟩ := mem_handles_iff.1 (hr.handles.mem_iff.1 (mem_handles_iff.2 ⟨a, ha⟩))
  exact ⟨a', ha', hr.artifacts h a a' ha ha'⟩

theorem isLive_iff (hr : c.Resembles c') : (∃ a, c'.get? h = some a) ↔ ∃ a, c.get? h = some a := by
  rw [← mem_handles_iff, ← mem_handles_iff, hr.handles.mem_iff]

theorem liveCount_eq (hr : c.Resembles c') : c'.liveCount = c.liveCount := by
  rw [← length_handles, ← length_handles, hr.handles.length_eq]

theorem knows (hr : c.Resembles c') (hk : c.Knows p i h) : c'.Knows p i h := by
  obtain ⟨a, ha, hb⟩ := hk
  obtain ⟨a', ha', hl⟩ := hr.live ha
  exact ⟨a', ha', (hl.bridges i).trans hb⟩

theorem knows_iff (hr : c.Resembles c') : c'.Knows p i h ↔ c.Knows p i h :=
  ⟨hr.symm.knows, hr.knows⟩

theorem of_perm {m : FinMap Nat Handle} (hp : ∀ a ∈ c.get? h, a.bridges.entries.Perm m.entries) :
    c.Resembles (c.withBridges h m) where
  versions := SameVersions.refl _
  dependents := fun _ => List.Perm.refl _
  next := rfl
  retiredCount := rfl
  loops := fun _ => rfl
  handles := by rw [handles_withBridges]
  artifacts := fun j a a' ha ha' => by
    rw [get?_withBridges, ha] at ha'
    split_ifs at ha' with hj
    · obtain rfl := Option.some.inj ha'
      refine ⟨rfl, rfl, rfl, rfl, rfl, rfl, fun i => Option.ext fun b => ?_⟩
      rw [← FinMap.mem_entries_iff, ← FinMap.mem_entries_iff, (hp a (hj ▸ ha)).mem_iff]
    · obtain rfl := Option.some.inj ha'
      exact Artifact.Resembles.refl a

theorem sound (hr : c.Resembles c') (hc : c.Sound) : c'.Sound where
  versions := hc.versions.of_sameVersions hr.versions fun l =>
    (hr.dependents l).nodup_iff.1 (hc.versions.nodup l)
  handle := fun h a' ha' => by
    obtain ⟨a, ha, hl⟩ := hr.symm.live ha'
    obtain ⟨he, hlt⟩ := hc.handle h a ha
    exact ⟨hl.handle.symm.trans he, hr.next ▸ hlt⟩
  loop_iff := fun s h => by
    rw [hr.loops, hc.loop_iff]
    constructor
    · rintro ⟨a, ha, hk, hs⟩
      obtain ⟨a', ha', hl⟩ := hr.live ha
      exact ⟨a', ha', hl.kind.trans hk, hl.site.trans hs⟩
    · rintro ⟨a', ha', hk, hs⟩
      obtain ⟨a, ha, hl⟩ := hr.symm.live ha'
      exact ⟨a, ha, hl.kind.trans hk, hl.site.trans hs⟩
  bridge := fun h a' i b ha' hb => by
    obtain ⟨a, ha, hl⟩ := hr.symm.live ha'
    obtain ⟨hk, ba, hba, hbk, hbs⟩ := hc.bridge h a i b ha ((hl.bridges i).trans hb)
    obtain ⟨ba', hba', hbl⟩ := hr.live hba
    exact ⟨hl.kind.symm.trans hk, ba', hba', hbl.kind.trans hbk,
      hbl.site.trans (hbs.trans hl.site)⟩
  parent := fun b ba' p i hba' hk => by
    obtain ⟨ba, hba, hl⟩ := hr.symm.live hba'
    obtain ⟨hlt, hp⟩ := hc.parent b ba p i hba (hl.kind.trans hk)
    refine ⟨hr.next ▸ hlt, fun pa' hpa' => ?_⟩
    obtain ⟨pa, hpa, hpl⟩ := hr.symm.live hpa'
    obtain ⟨hpk, hps⟩ := hp pa hpa
    exact ⟨hpl.kind.symm.trans hpk, hpl.site.symm.trans (hps.trans hl.site)⟩
  issued := fun h a' ha' v hv => by
    obtain ⟨a, ha, hl⟩ := hr.symm.live ha'
    exact (hr.versions.issued_iff v).2 (hc.issued h a ha v (hl.guards ▸ hv))
  registered := fun h a' ha' v hv hcur => by
    obtain ⟨a, ha, hl⟩ := hr.symm.live ha'
    rw [hr.versions.isCurrent_iff] at hcur
    exact (hr.dependents _).mem_iff.1 (hc.registered h a ha v (hl.guards ▸ hv) hcur)
  dependent := fun l d hd => by
    obtain ⟨hlt, hg⟩ := hc.dependent l d ((hr.dependents l).mem_iff.2 hd)
    refine ⟨hr.next ▸ hlt, fun a' ha' => ?_⟩
    obtain ⟨a, ha, hl⟩ := hr.symm.live ha'
    obtain ⟨v, hv, hvl⟩ := hg a ha
    exact ⟨v, hl.guards ▸ hv, hvl⟩

/-- What is left of two caches that resemble one another does so too, if the same has gone. -/
theorem of_without {gone gone' : List Handle} (hr : c.Resembles c')
    (hw : c.Without d gone) (hw' : c'.Without d' gone') (hx : c.Exchanges d [] gone)
    (hx' : c'.Exchanges d' [] gone') (hg : gone.Perm gone') : d.Resembles d' where
  versions := ⟨hw'.versions.table.trans (hr.versions.table.trans hw.versions.table.symm),
    hw'.versions.next.trans (hr.versions.next.trans hw.versions.next.symm), fun l =>
      (hw'.versions.current l).trans ((hr.versions.current l).trans (hw.versions.current l).symm)⟩
  dependents := fun l => (List.perm_ext_iff_of_nodup (hw.nodup l) (hw'.nodup l)).2 fun j => by
    rw [hw.dependents, hw'.dependents, (hr.dependents l).mem_iff, hg.mem_iff]
  next := hw'.next.trans (hr.next.trans hw.next.symm)
  retiredCount := by
    rw [hx'.retiredCount, hx.retiredCount, hr.retiredCount, hg.length_eq]
  loops := fun s => Option.ext fun j => by
    rw [hw'.loops, hw.loops, hr.loops, hg.mem_iff]
  handles := by
    have hleft := hx.handles
    have hright := hx'.handles
    rw [List.append_nil] at hleft hright
    have hall := (hleft.symm.trans (hr.handles.trans hright)).trans (hg.symm.append_left _)
    exact (List.perm_append_right_iff gone).1 hall
  artifacts := fun h b b' hb hb' => by
    obtain ⟨a, ha, hl⟩ := hw.live h b hb
    obtain ⟨a', ha', hl'⟩ := hw'.live h b' hb'
    exact (hr.artifacts h a a' ha ha').of_loses hl hl' fun j => hg.mem_iff

end Resembles

/-! ## Applying an invalidation -/

theorem nodup_retireAll (c : Cache) (hs : List Handle) : (c.retireAll hs).2.Nodup :=
  (exchanges_retireAll hs c).nodup (by simpa using c.nodup_handles)

theorem retireAll_of_dead {c : Cache} {hs : List Handle} (hd : ∀ h ∈ hs, c.get? h = none) :
    c.retireAll hs = (c, []) := by
  induction hs with
  | nil => rfl
  | cons h hs ih =>
      have hh := retire_of_dead (hd h List.mem_cons_self)
      have hrest := ih fun j hj => hd j (List.mem_cons_of_mem h hj)
      simp only [retireAll, hh, hrest, List.append_nil]

theorem retireAll_perm {c c' : Cache} (hr : c.Resembles c') (hc : c.Sound) {hs hs' : List Handle}
    (hp : hs.Perm hs') : (c.retireAll hs).2.Perm (c'.retireAll hs').2 := by
  refine (List.perm_ext_iff_of_nodup (nodup_retireAll c hs) (nodup_retireAll c' hs')).2 fun h => ?_
  rw [mem_retireAll_iff hc, mem_retireAll_iff (hr.sound hc), exists_and_right, exists_and_right,
    hr.isLive_iff]
  simp only [hp.mem_iff, hr.knows_iff]

/-- What applying `i` to `c` retires and leaves, compared with applying `i'` to `c'`. -/
structure AppliesAlike (c c' : Cache) (i i' : Invalidation) : Prop where
  listed : (c.apply i).2.Perm (c'.apply i').2
  nodup : (c.apply i).2.Nodup
  /-- Retired are the live dependents, and the bridges in the maps of the loops among them. -/
  mem_iff : ∀ h, h ∈ (c.apply i).2 ↔ (c.isLive h = true ∧ h ∈ i.dependents) ∨
    ∃ p a, p ∈ i.dependents ∧ c.get? p = some a ∧ a.IsLoop ∧ h ∈ a.bridges.values
  left : (c.apply i).1.Resembles (c'.apply i').1
  liveCount : (c.apply i).1.liveCount = (c'.apply i').1.liveCount
  /-- Nothing is left to do for the same invalidation. -/
  again : (c.apply i).1.apply i = ((c.apply i).1, [])

theorem mem_apply_iff {c : Cache} (hc : c.Sound) (i : Invalidation) (h : Handle) :
    h ∈ (c.apply i).2 ↔ (c.isLive h = true ∧ h ∈ i.dependents) ∨
      ∃ p a, p ∈ i.dependents ∧ c.get? p = some a ∧ a.IsLoop ∧ h ∈ a.bridges.values := by
  rw [apply, mem_retireAll_iff hc, exists_and_right, ← Cache.isLive_iff, and_or_left]
  refine or_congr_right ⟨?_, ?_⟩
  · rintro ⟨-, p, hp, k, a, ha, hk⟩
    exact ⟨p, a, hp, ha, (hc.bridge p a k h ha hk).1, (FinMap.mem_values_iff _ _).2 ⟨k, hk⟩⟩
  · rintro ⟨p, a, hp, ha, -, hm⟩
    obtain ⟨k, hk, hlive⟩ := hc.exists_of_mem_bridges ha hm
    exact ⟨(Cache.isLive_iff c h).2 hlive, p, hp, k, a, ha, hk⟩

theorem apply_again {c : Cache} (hc : c.Sound) (i : Invalidation) :
    (c.apply i).1.apply i = ((c.apply i).1, []) := by
  have hw := without_retireAll i.dependents hc
  refine retireAll_of_dead fun h hm => (hw.dead h).2 ?_
  cases ha : c.get? h with
  | none => exact Or.inr rfl
  | some a => exact Or.inl (mem_retireAll hc hm ha)

theorem Sound.appliesAlike {c c' : Cache} (hc : c.Sound) (hr : c.Resembles c')
    {i i' : Invalidation} (hi : i.dependents.Perm i'.dependents) : c.AppliesAlike c' i i' := by
  have hc' := hr.sound hc
  have hlisted : (c.apply i).2.Perm (c'.apply i').2 := retireAll_perm hr hc hi
  have hleft : (c.apply i).1.Resembles (c'.apply i').1 :=
    hr.of_without (without_retireAll _ hc) (without_retireAll _ hc') (exchanges_retireAll _ c)
      (exchanges_retireAll _ c') hlisted
  exact ⟨hlisted, nodup_retireAll c i.dependents, mem_apply_iff hc i, hleft,
    hleft.liveCount_eq.symm, apply_again hc i⟩

end Cache

namespace History

/-- In all histories, it does not matter in which order an invalidation names its dependents, nor in
which order the cache holds its artifacts, their bridges and the dependents of a version. -/
theorem run_appliesAlike (table : Nat) (steps : List Step) {c' : Cache}
    (hc' : (run table steps).cache.Resembles c') {i i' : Invalidation}
    (hi : i.dependents.Perm i'.dependents) : (run table steps).cache.AppliesAlike c' i i' :=
  (inv_run table steps).sound.appliesAlike hc' hi

def bridged : History :=
  run 0 [.capture ⟨⟨0⟩, "n"⟩, .install (.loop ⟨0, "loop", ["n"], ["i"]⟩ ⟨[.int 1]⟩) [0] [],
    .install (.bridge ⟨1⟩ 0) [0] [], .install (.bridge ⟨1⟩ 1) [0] []]

/-- The loop lists its bridges in the other order, and the invalidation names it between them. -/
theorem run_appliesAlike_bridged :
    let c := bridged.cache.withBridges ⟨1⟩ ⟨[(1, ⟨3⟩), (0, ⟨2⟩)], by decide⟩
    let i : Invalidation := ⟨⟨0, ⟨⟨0⟩, "n"⟩, 1⟩, 2, [⟨1⟩, ⟨2⟩, ⟨3⟩]⟩
    let i' : Invalidation := { i with dependents := [⟨3⟩, ⟨1⟩, ⟨2⟩] }
    bridged.cache.AppliesAlike c i i' ∧ (bridged.cache.apply i).2 = [⟨1⟩, ⟨2⟩, ⟨3⟩] ∧
      (c.apply i').2 = [⟨3⟩, ⟨1⟩, ⟨2⟩] :=
  ⟨run_appliesAlike 0 _ (Cache.Resembles.of_perm (by decide)) (by decide), by decide, by decide⟩

end History

end HotLoop.Code
