import HotLoop.Proofs.Bridges
import HotLoop.Proofs.Counts
import HotLoop.Proofs.Loops

/-!
# What retiring takes along

Retiring a loop takes along the bridges in its map, and retiring a bridge makes its loop forget it.
`RetiresOwn` says that this is all: whatever is not retired keeps its record, its place among the
loops and what it depends on, in all histories.
-/

namespace HotLoop.Code

open Trace Versions

namespace Cache

variable {c : Cache} {h : Handle} {a : Artifact}

/-- What retiring `h` lists, and what it leaves of the cache. -/
structure RetiresOwn (c : Cache) (h : Handle) : Prop where
  dead : c.isLive h = false → c.retire h = (c, [])
  /-- The handle comes first, then each live bridge in its map, once. -/
  listed : ∀ a, c.get? h = some a → ∃ bridges, (c.retire h).2 = h :: bridges ∧
    (h :: bridges).Nodup ∧ ∀ b, b ∈ bridges ↔ c.isLive b = true ∧ b ∈ a.bridges.values
  gone : ∀ j ∈ (c.retire h).2, (c.retire h).1.isLive j = false ∧
    ∀ l, j ∉ (c.retire h).1.versions.dependents l
  /-- The handle is found at one site if it is a loop, and nowhere if it is not. -/
  found : ∀ s, c.loop? s = some h ↔ ∃ a, c.get? h = some a ∧ a.IsLoop ∧ a.site = s
  loops : ∀ s, (c.retire h).1.loop? s = if c.loop? s = some h then none else c.loop? s
  /-- The loop that `h` hangs off forgets it and nothing else. -/
  parent : ∀ p i r, c.HangsOff h p i → c.get? p = some r →
    ∃ m, (c.retire h).1.get? p = some { r with bridges := m } ∧
      ∀ k b, m.find? k = some b ↔ r.bridges.find? k = some b ∧ b ≠ h
  others : ∀ j, j ∉ (c.retire h).2 → (∀ i, ¬ c.HangsOff h j i) →
    (c.retire h).1.get? j = c.get? j
  stillDead : ∀ j, c.get? j = none → (c.retire h).1.get? j = none
  registrations : ∀ l, ((c.retire h).1.versions.dependents l).Perm
    ((c.versions.dependents l).filter fun d => d ∉ (c.retire h).2)
  versions : SameVersions c.versions (c.retire h).1.versions
  next : (c.retire h).1.next = c.next
  retiredCount : (c.retire h).1.retiredCount = c.retiredCount + (c.retire h).2.length

theorem nodup_handles (c : Cache) : c.handles.Nodup := c.artifacts.nodup_keys

theorem nodup_retire (c : Cache) (h : Handle) : (c.retire h).2.Nodup :=
  (exchanges_retire c h).nodup (by simpa using c.nodup_handles)

theorem Sound.not_mem_bridges (hc : c.Sound) (ha : c.get? h = some a) (hk : ¬ a.IsLoop)
    (b : Handle) : b ∉ a.bridges.values := by
  intro hb
  obtain ⟨i, hi⟩ := (FinMap.mem_values_iff _ _).1 hb
  exact hk (hc.bridge h a i b ha hi).1

theorem retire_listed (hc : c.Sound) (ha : c.get? h = some a) :
    ∃ bridges, (c.retire h).2 = h :: bridges ∧ (h :: bridges).Nodup ∧
      ∀ b, b ∈ bridges ↔ c.isLive b = true ∧ b ∈ a.bridges.values := by
  cases hk : a.kind with
  | loop =>
      obtain ⟨bridges, he, -, hm⟩ := retire_loop_eq hc ha hk
      exact ⟨bridges, he, he ▸ nodup_retire c h, hm⟩
  | bridge p i =>
      have hnot : ¬ a.IsLoop := by simp [Artifact.IsLoop, hk]
      refine ⟨[], by rw [retire_of_bridge ha hk], List.nodup_singleton h, fun b => ?_⟩
      simp [hc.not_mem_bridges ha hnot]

theorem loop?_retire_eq (hc : c.Sound) (h : Handle) (s : Site) :
    (c.retire h).1.loop? s = if c.loop? s = some h then none else c.loop? s := by
  split_ifs with hs
  · exact loop?_retire hc hs
  · -- what goes along with `h` are bridges, which are found at no site
    refine Option.ext fun j => ?_
    rw [(without_retire hc h).loops, and_iff_left_iff_imp]
    intro hj hm
    obtain ⟨la, hla, hlk, -⟩ := (hc.loop_iff s j).1 hj
    obtain ⟨a, ha, rfl | ⟨i, hi⟩⟩ := (mem_retire hc).1 hm
    · exact hs hj
    · exact hc.bridge_ne_loop ha hi hla hlk rfl

theorem Sound.bridges_detach (hc : c.Sound) {p : Handle} {i : Nat} {r : Artifact}
    (hh : c.HangsOff h p i) (hr : c.get? p = some r) : r.Loses (r.detach i h) [h] := by
  refine Artifact.loses_detach fun k hk => ?_
  exact ((hc.of_knows ⟨r, hr, hk⟩).2.unique hh).2

theorem detach_eq (r : Artifact) (i : Nat) (b : Handle) :
    r.detach i b = { r with bridges := (r.detach i b).bridges } := by
  unfold Artifact.detach
  split_ifs <;> rfl

theorem parent_retire (hc : c.Sound) {p : Handle} {i : Nat} {r : Artifact}
    (hh : c.HangsOff h p i) (hr : c.get? p = some r) :
    ∃ m, (c.retire h).1.get? p = some { r with bridges := m } ∧
      ∀ k b, m.find? k = some b ↔ r.bridges.find? k = some b ∧ b ≠ h := by
  obtain ⟨a, ha, hk⟩ := hh
  have hp : p ≠ h := by
    rintro rfl
    have hloop := ((hc.parent p a p i ha hk).2 r hr).1
    rw [← Option.some.inj (ha.symm.trans hr), hk] at hloop
    cases hloop
  refine ⟨(r.detach i h).bridges, ?_, fun k b => ?_⟩
  · rw [get?_retire_bridge ha hk, if_neg hp, hr, ← detach_eq]
    simp
  · rw [(hc.bridges_detach ⟨a, ha, hk⟩ hr).bridges, List.mem_singleton]

theorem get?_retire_of_not_mem (hc : c.Sound) {j : Handle} (hj : j ∉ (c.retire h).2)
    (hh : ∀ i, ¬ c.HangsOff h j i) : (c.retire h).1.get? j = c.get? j := by
  cases ha : c.get? h with
  | none => rw [retire_of_dead ha]
  | some a =>
      obtain ⟨bridges, he, -, hm⟩ := retire_listed hc ha
      rw [he, List.mem_cons, not_or] at hj
      cases hk : a.kind with
      | loop =>
          have hb : j ∉ a.bridges.values := by
            intro hb
            obtain ⟨-, -, hlive⟩ := hc.exists_of_mem_bridges ha hb
            exact hj.2 ((hm j).2 ⟨(isLive_iff c j).2 hlive, hb⟩)
          rw [(retire_loop_spec hc ha hk).2.2.2.2.1, if_neg (not_or.2 ⟨hj.1, hb⟩)]
      | bridge p i =>
          have hp : j ≠ p := by
            rintro rfl
            exact hh i ⟨a, ha, hk⟩
          rw [get?_retire_bridge ha hk, if_neg hj.1]
          simp [hp]

theorem dependents_retire (hc : c.Sound) (h : Handle) (l : Location) :
    ((c.retire h).1.versions.dependents l).Perm
      ((c.versions.dependents l).filter fun d => d ∉ (c.retire h).2) := by
  have hw := without_retire hc h
  refine (List.perm_ext_iff_of_nodup (hw.nodup l) ((hc.versions.nodup l).filter _)).2 fun d => ?_
  rw [hw.dependents, List.mem_filter, decide_eq_true_iff]

/-- Retiring is local in each sound cache. -/
theorem Sound.retiresOwn (hc : c.Sound) (h : Handle) : c.RetiresOwn h where
  dead := fun hd => retire_of_dead ((isLive_eq_false_iff c h).1 hd)
  listed := fun _ ha => retire_listed hc ha
  gone := fun j hj => by
    have hw := without_retire hc h
    refine ⟨(isLive_eq_false_iff _ j).2 ((hw.dead j).2 (Or.inl hj)), fun l hl => ?_⟩
    exact ((hw.dependents l j).1 hl).2 hj
  found := fun s => hc.loop_iff s h
  loops := loop?_retire_eq hc h
  parent := fun _ _ _ hh hr => parent_retire hc hh hr
  others := fun _ hj hh => get?_retire_of_not_mem hc hj hh
  stillDead := fun j hj => ((without_retire hc h).dead j).2 (Or.inr hj)
  registrations := dependents_retire hc h
  versions := (without_retire hc h).versions
  next := (without_retire hc h).next
  retiredCount := (exchanges_retire c h).retiredCount

end Cache

/-- In all histories, retiring takes out the handle with the bridges in its map, and it leaves the
records, the loops and the registrations of all others alone. -/
theorem History.run_retiresOwn (table : Nat) (steps : List Step) (h : Handle) :
    (run table steps).cache.RetiresOwn h :=
  (inv_run table steps).sound.retiresOwn h

end HotLoop.Code
