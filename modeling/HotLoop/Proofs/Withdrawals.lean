import HotLoop.Proofs.Registrations

/-!
# Taking an artifact out through a stale version

The versions of a location share one list of dependents. To register an artifact takes the current
version, but to take it out any version of the location will do: what counts is whether it was
registered since the last write. So a stale version finds nothing right behind the write that revoked
it, and from then on it finds what is registered on the version in its place.
-/

namespace HotLoop

open Versions

namespace Tables

variable {ts : Tables} {i : Nat} {l : Location} {h d : Handle} {u v : Version} {s : Step}

theorem unregister?_congr (hi : u.table = v.table) (hl : u.location = v.location) (h : Handle) :
    ts.unregister? u h = ts.unregister? v h := by
  simp only [unregister?, Versions.unregister?, hi, hl]

theorem unregister?_eq_none_iff :
    ts.unregister? v h = none ↔ h ∉ ts.dependents v.table v.location := by
  rw [← isSome_unregister?_iff, Bool.not_eq_true, Option.isSome_eq_false_iff,
    Option.isNone_iff_eq_none]

theorem mem_dependents_step_unregister (hs : ts.Sound) (v : Version) (h : Handle) :
    d ∈ (ts.step (.unregister v h)).dependents i l ↔
      d ∈ ts.dependents i l ∧ ¬ (v.table = i ∧ v.location = l ∧ h = d) := by
  have hr : ¬ Registers i l d ts (.unregister v h) := by
    rintro ⟨u, he, -⟩
    cases he
  rw [mem_dependents_step hs, or_iff_left hr]
  refine and_congr_right fun hd => not_congr ?_
  constructor
  · rintro (he | ⟨u, he, hi, hl, -⟩)
    · cases he
    · cases he
      exact ⟨hi, hl, rfl⟩
  · rintro ⟨rfl, rfl, rfl⟩
    exact Or.inr ⟨v, rfl, rfl, rfl, isSome_unregister?_iff.2 hd⟩

/-- Where something is to be withdrawn, the step changes the tables. -/
theorem step_unregister_eq_iff (hs : ts.Sound) :
    ts.step (.unregister v h) = ts ↔ ts.unregister? v h = none := by
  constructor
  · intro he
    rw [unregister?_eq_none_iff, ← he, mem_dependents_step_unregister hs]
    exact fun hm => hm.2 ⟨rfl, rfl, rfl⟩
  · intro hu
    simp [step, hu]

theorem Issued.exists_newer (hv : ts.Issued v) (hc : ¬ ts.IsCurrent v) :
    ∃ u, ts.IsCurrent u ∧ u.table = v.table ∧ u.location = v.location ∧ v.id < u.id := by
  obtain ⟨t, ht, hv⟩ := hv
  obtain ⟨hvt, u, hu, hle⟩ := id hv
  have hut : u.table = v.table := (table_of_current? hu).trans hvt.symm
  have hul := location_of_current? hu
  rw [isCurrent_iff_of_get? ht, hv.isCurrent_iff hu] at hc
  refine ⟨u, ⟨t, hut ▸ ht, ?_⟩, hut, hul, by omega⟩
  rwa [Versions.isCurrent_iff, hul]

theorem isCurrent_of_mem_dependents (hs : ts.Sound) (hh : h ∈ ts.dependents i l) :
    ∃ u, ts.IsCurrent u ∧ u.table = i ∧ u.location = l := by
  cases hc : ts.current? i l with
  | some u =>
      obtain ⟨hi, hl, hu⟩ := hs.of_current? hc
      exact ⟨u, hu, hi, hl⟩
  | none =>
      cases ht : ts.get? i with
      | none => simp [dependents, ht] at hh
      | some t =>
          simp only [current?, ht, Option.bind_some] at hc
          rw [dependents_of_get? ht, dependents_of_untracked hc] at hh
          cases hh

/-- Dependents belong to the current version: they are what was registered on it and not taken
out. -/
theorem current_dependent_step (hs : ts.Sound) :
    (ts.step s).IsCurrent u ∧ h ∈ (ts.step s).dependents u.table u.location ↔
      (ts.IsCurrent u ∧ h ∈ ts.dependents u.table u.location) ∧
          ¬ Ends u.table u.location h ts s ∨ s = .register u h ∧ ts.IsCurrent u := by
  have hstays : ∀ {w}, ts.IsCurrent w → s ≠ .invalidate w.table w.location →
      (ts.step s).IsCurrent w := fun hw hn =>
    ((issued_of_isCurrent hw).isCurrent_step_iff hs s).2 ⟨hw, hn⟩
  rw [mem_dependents_step hs]
  constructor
  · rintro ⟨hu, ⟨hh, hn⟩ | ⟨w, rfl, hi, hl, hr⟩⟩
    · obtain ⟨w, hw, hi, hl⟩ := isCurrent_of_mem_dependents hs hh
      have hw' := hstays hw fun he => hn (Or.inl (by rw [he, hi, hl]))
      obtain rfl := hw'.unique hu hi hl
      exact Or.inl ⟨⟨hw, hh⟩, hn⟩
    · have hw := isSome_register?_iff.1 hr
      obtain rfl := (hstays hw (by simp)).unique hu hi hl
      exact Or.inr ⟨rfl, hw⟩
  · rintro (⟨⟨hu, hh⟩, hn⟩ | ⟨rfl, hu⟩)
    · exact ⟨hstays hu fun he => hn (Or.inl he), Or.inl ⟨hh, hn⟩⟩
    · exact ⟨hstays hu (by simp), Or.inr ⟨u, rfl, rfl, rfl, isSome_register?_iff.2 hu⟩⟩

/-- How the artifact is taken out through the version, after these steps on `n` tables. -/
structure Withdrawal (n : Nat) (steps : List Step) (v : Version) (h : Handle) : Prop where
  /-- It succeeds just if the artifact was registered on the location since the last write, and not
  taken out since. -/
  accepted_iff : ((run n steps).unregister? v h).isSome ↔
    Since step (Registers v.table v.location h) (Ends v.table v.location h) (ofCount n) steps
  /-- Then the artifact goes from that location, and otherwise all stays as it is. -/
  mem_iff : ∀ i l d, d ∈ ((run n steps).step (.unregister v h)).dependents i l ↔
    d ∈ (run n steps).dependents i l ∧ ¬ (v.table = i ∧ v.location = l ∧ h = d)
  unchanged_iff : (run n steps).step (.unregister v h) = run n steps ↔
    (run n steps).unregister? v h = none
  /-- All versions of a location do the same, whether they are current or not. -/
  alike : ∀ u, u.table = v.table → u.location = v.location →
    (run n steps).unregister? u h = (run n steps).unregister? v h
  /-- So a stale version takes out just what was registered on the version in its place. -/
  stale : (run n steps).Issued v → ¬ (run n steps).IsCurrent v →
    ∃ u, (run n steps).IsCurrent u ∧ u.table = v.table ∧ u.location = v.location ∧ v.id < u.id ∧
      (((run n steps).unregister? v h).isSome ↔
        Since step (fun ts s => s = .register u h ∧ ts.IsCurrent u)
          (Ends v.table v.location h) (ofCount n) steps)
  /-- Behind a write it finds nothing, until the artifact is registered anew. -/
  written : ∀ later : List Step,
    ¬ Occurs step (Registers v.table v.location h)
        ((run n steps).step (.invalidate v.table v.location)) later →
      (run n (steps ++ .invalidate v.table v.location :: later)).unregister? v h = none

/-- Whatever the clients ask in whatever order, an artifact is taken out of a location through any of
its versions, and just if it depends on the location. -/
theorem run_withdrawal (n : Nat) (steps : List Step) (v : Version) (h : Handle) :
    Withdrawal n steps v h := by
  have hs := sound_run n steps
  have hempty : ∀ i l, h ∉ (ofCount n).dependents i l := by simp [dependents_ofCount]
  constructor
  case accepted_iff =>
    rw [isSome_unregister?_iff]
    exact mem_dependents_foldl_iff (sound_run n []) (hempty _ _) steps
  case mem_iff => exact fun i l d => mem_dependents_step_unregister hs v h
  case unchanged_iff => exact step_unregister_eq_iff hs
  case alike => exact fun u hi hl => unregister?_congr hi hl h
  case stale =>
    intro hv hc
    obtain ⟨u, hu, hi, hl, hlt⟩ := hv.exists_newer hc
    refine ⟨u, hu, hi, hl, hlt, ?_⟩
    rw [isSome_unregister?_iff, ← hi, ← hl]
    refine (and_iff_right hu).symm.trans <| since_iff_of_step
      (fun ts : Tables => ts.IsCurrent u ∧ h ∈ ts.dependents u.table u.location) ?_ ?_ steps
    · exact fun hw => hempty _ _ hw.2
    · exact fun as s => current_dependent_step (sound_run n as)
  case written =>
    intro later hn
    have hd := dependents_step_invalidate hs v.table v.location
    have hrun : run n (steps ++ .invalidate v.table v.location :: later) =
        later.foldl step ((run n steps).step (.invalidate v.table v.location)) :=
      List.foldl_append
    rw [unregister?_eq_none_iff, hrun, mem_dependents_foldl_iff (hs.step _) (by simp [hd])]
    exact fun hr => hn hr.occurs

/-- Version 1 of the field is revoked by the write, and the artifact is registered on version 2. -/
def registeredAnew (l : Location) : List Step :=
  [.read 0 l, .invalidate 0 l, .read 0 l, .register ⟨0, l, 2⟩ ⟨7⟩]

/-- The stale version 1 takes the artifact out of the dependents of version 2. -/
theorem stale_version_withdraws :
    let ts := run 1 (registeredAnew ⟨⟨1⟩, "a"⟩)
    let v : Version := ⟨0, ⟨⟨1⟩, "a"⟩, 1⟩
    ts.Issued v ∧ ¬ ts.IsCurrent v ∧ (ts.unregister? v ⟨7⟩).isSome ∧
      ts.dependents 0 v.location = [⟨7⟩] ∧
      (ts.step (.unregister v ⟨7⟩)).dependents 0 v.location = [] :=
  ⟨⟨_, rfl, rfl, _, rfl, by decide⟩, by decide, by decide, by decide, by decide⟩

end Tables

end HotLoop
