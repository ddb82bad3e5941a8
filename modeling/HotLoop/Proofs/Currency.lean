import HotLoop.Proofs.Install

/-!
# Caches without stale guards

A cache is `Current` if all guards of all its live artifacts are. Only a write can end that, and a
write that is followed by the retirement of its dependents does not: the list of dependents misses
none of the artifacts that guard the written location.
-/

namespace HotLoop.Code.Cache

open Trace Versions

def Current (c : Cache) : Prop :=
  ∀ h a, c.get? h = some a → ∀ v ∈ a.guards.captured, c.versions.IsCurrent v

variable {c c' : Cache}

theorem current_empty (table : Nat) : Current { versions := { table := table } } :=
  fun _ _ ha => by cases ha

theorem Current.install (h : c.Current) {g : Guards} (hv : SameVersions c.versions c'.versions)
    (hg : ∀ v ∈ g.captured, c.versions.IsCurrent v)
    (hl : ∀ j a', c'.get? j = some a' →
      a'.guards = g ∨ ∃ a, c.get? j = some a ∧ a'.guards = a.guards) : c'.Current := by
  intro j a' ha' v hm
  rw [hv.isCurrent_iff]
  rcases hl j a' ha' with he | ⟨a, ha, he⟩
  · rw [he] at hm
    exact hg v hm
  · rw [he] at hm
    exact h j a ha v hm

theorem Current.of_sameVersions (h : c.Current) (hv : SameVersions c.versions c'.versions)
    (hl : ∀ j a', c'.get? j = some a' → ∃ a, c.get? j = some a ∧ a'.guards = a.guards) :
    c'.Current :=
  h.install (g := ∅) hv (fun _ hm => absurd hm List.not_mem_nil) fun j a' ha' => Or.inr (hl j a' ha')

theorem Current.without {gone : List Handle} (h : c.Current) (hw : c.Without c' gone) :
    c'.Current := by
  apply h.of_sameVersions hw.versions
  intro j a' ha'
  obtain ⟨a, ha, hl⟩ := hw.live j a' ha'
  exact ⟨a, ha, hl.guards⟩

theorem Current.register (h : c.Current) (g : Guards) : (c.register g).1.Current :=
  h.of_sameVersions (register_spec c g).1 fun _ a ha => ⟨a, ha, rfl⟩

theorem Current.enter (h : c.Current) (hc : c.Sound) (j : Handle) : (c.enter j).1.Current :=
  h.of_sameVersions (sameVersions_enter hc j) fun _ _ ha' => live_enter hc ha'

theorem Current.read (h : c.Current) (hc : c.Sound) (l : Location) :
    Current { c with versions := (c.versions.read l).1 } := by
  intro j a ha v hv
  exact ((hc.issued j a ha v hv).isCurrent_read_iff l).2 (h j a ha v hv)

/-- A write keeps the guards current if its dependents are retired at once. -/
theorem Current.revoke (h : c.Current) (hc : c.Sound) {l : Location} {t : Versions}
    {i : Invalidation} (hi : c.versions.invalidate? l = some (t, i)) :
    (retireAll { c with versions := t } i.dependents).1.Current := by
  intro j a' ha'
  exact hc.current_of_revoked hi ha' fun a ha => h j a ha

theorem Current.firstStale? (h : c.Current) {j : Handle} {a : Artifact} (ha : c.get? j = some a) :
    a.guards.firstStale? c.versions = none :=
  (firstStale?_eq_none_iff _ _).2 (h j a ha)

/-- With all guards current, what is live can be entered. -/
theorem Current.enter_eq (h : c.Current) (j : Handle) :
    (c.enter j).2 = if c.isLive j then .entered else .dead := by
  rcases enter_cases c j with ⟨hd, he⟩ | ⟨a, ha, -, he⟩ | ⟨a, v, ha, hg, -⟩
  · rw [he, if_neg]
    simp [isLive_iff, hd]
  · rw [he, if_pos ((isLive_iff c j).2 ⟨a, ha⟩)]
  · rw [h.firstStale? ha] at hg
    cases hg

end HotLoop.Code.Cache
