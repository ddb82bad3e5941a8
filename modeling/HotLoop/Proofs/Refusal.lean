import HotLoop.Proofs.History

/-!
# Refused installations

An installation is refused if one of its guards is stale. It has no effect on the artifacts, but the
registrations made before the stale guard was met are not taken back: the handle that was used up
stays among the dependents of those locations, although nothing is ever stored under it. Only a
refusal at the very first guard leaves the dependents alone.
-/

namespace HotLoop.Code

open Trace Versions

/-- What is left of a cache `c` when the registration of `g` stops at a stale guard. -/
structure Refused (c c' : Cache) (g : Guards) : Prop where
  loops : c'.loops = c.loops
  artifacts : c'.artifacts = c.artifacts
  retiredCount : c'.retiredCount = c.retiredCount
  next : c'.next = c.next + 1
  versions : SameVersions c.versions c'.versions
  dead : c'.get? ⟨c.next⟩ = none
  dependents : ∀ l, c'.versions.dependents l =
    if l ∈ (g.captured.takeWhile fun v => decide (c.versions.IsCurrent v)).map Version.location
    then c.versions.dependents l ++ [⟨c.next⟩] else c.versions.dependents l

namespace Refused

variable {c c' : Cache} {g : Guards}

theorem liveCount (h : Refused c c' g) : c'.liveCount = c.liveCount := by
  unfold Cache.liveCount
  rw [h.artifacts]

/-- The dependents are as before just if the first guard is the stale one. -/
theorem dependents_eq_iff (h : Refused c c' g) {v : Version}
    (hv : g.firstStale? c.versions = some v) :
    (∀ l, c'.versions.dependents l = c.versions.dependents l) ↔ g.captured.head? = some v := by
  obtain ⟨hs, before, after, he, hb⟩ := List.find?_eq_some_iff_append.1 hv
  have hstale : ¬ c.versions.IsCurrent v := of_decide_eq_true hs
  cases before with
  | nil =>
      refine iff_of_true (fun l => ?_) (by rw [he]; rfl)
      rw [h.dependents, he]
      simp [hstale]
  | cons u before =>
      have hu : c.versions.IsCurrent u := by simpa using hb u List.mem_cons_self
      refine iff_of_false (fun hd => ?_) fun hh => ?_
      · have hl := (h.dependents u.location).symm.trans (hd u.location)
        rw [he] at hl
        simp [hu] at hl
      · rw [he] at hh
        obtain rfl := Option.some.inj hh
        exact hstale hu

end Refused

theorem refused_register {c : Cache} (hc : c.Sound) (g : Guards) :
    Refused c (c.register g).1 g := by
  refine ⟨rfl, rfl, rfl, rfl, (Cache.register_spec c g).1, hc.get?_next, fun l => ?_⟩
  refine dependents_registerAll _ g.captured g.nodup_locations (fun v _ hm => ?_) l
  exact lt_irrefl _ (hc.dependent v.location _ hm).1

namespace History

/-- A refused installation, after whatever history, changes nothing but the number of the next
handle and the dependents of the locations guarded before the first stale guard. -/
theorem refused_install (table : Nat) (steps : List Step) (target : Target) (picks : List Nat)
    (ops : List Op) (l : Location) (shapes : Shapes) (c : Cache)
    (h : target.install ((run table steps).guards picks) ops
      ((run table steps).shapes, (run table steps).cache) = .ok (.error l) (shapes, c)) :
    Refused (run table steps).cache c ((run table steps).guards picks) ∧
      ∃ v, ((run table steps).guards picks).firstStale? (run table steps).cache.versions = some v ∧
        v.location = l ∧
        ((∀ j, c.versions.dependents j = (run table steps).cache.versions.dependents j) ↔
          ((run table steps).guards picks).captured.head? = some v) := by
  have hc := (inv_run table steps).sound
  rcases install_cases target ((run table steps).guards picks) ops (run table steps).shapes hc with
    ⟨shapes', c', a, hi, -⟩ | ⟨shapes', v, hi, hg⟩ | ⟨f, hi⟩
  · rw [hi] at h
    cases h
  · rw [hi] at h
    cases h
    have hr := refused_register hc ((run table steps).guards picks)
    exact ⟨hr, v, hg, rfl, hr.dependents_eq_iff hg⟩
  · rw [hi] at h
    cases h

/-! ### A registration that stays

Two fields are captured, the second one is written, and both are to be guarded. -/

def fieldA : Location := ⟨⟨1⟩, "a"⟩

def fieldB : Location := ⟨⟨1⟩, "b"⟩

def secondStale : History := run 0 [.capture fieldA, .capture fieldB, .invalidate fieldB]

def loopTarget : Target := .loop ⟨0, "loop", ["n"], ["i"]⟩ ⟨[.int 1]⟩

/-- The refused loop is a dependent of the first field, which had none. -/
theorem refused_install_leaves_dependent :
    ∃ shapes c, loopTarget.install (secondStale.guards [0, 1]) []
        (secondStale.shapes, secondStale.cache) = .ok (.error fieldB) (shapes, c) ∧
      secondStale.cache.versions.dependents fieldA = [] ∧ c.versions.dependents fieldA = [⟨1⟩] ∧
      c.get? ⟨1⟩ = none :=
  ⟨_, _, rfl, by decide, by decide, by decide⟩

theorem refused_install_secondStale :
    ∃ shapes c, Refused secondStale.cache c (secondStale.guards [0, 1]) ∧
      loopTarget.install (secondStale.guards [0, 1]) [] (secondStale.shapes, secondStale.cache) =
        .ok (.error fieldB) (shapes, c) :=
  ⟨_, _, (refused_install 0 [.capture fieldA, .capture fieldB, .invalidate fieldB] loopTarget [0, 1]
    [] fieldB _ _ rfl).1, rfl⟩

end History

end HotLoop.Code
