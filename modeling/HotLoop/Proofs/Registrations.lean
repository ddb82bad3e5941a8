import HotLoop.Proofs.Tables

/-!
# No registration is lost

An artifact depends on a location from the registration that is not refused until it is removed. It
is removed by the next write to the location, which hands it over, or it is taken out before. So what
a write hands over are the artifacts that were registered since the last write and not taken out.
-/

namespace HotLoop

open Versions

namespace Tables

/-- The step registers the artifact on the location, and is not refused. -/
def Registers (i : Nat) (l : Location) (h : Handle) (ts : Tables) (s : Step) : Prop :=
  ∃ v, s = .register v h ∧ v.table = i ∧ v.location = l ∧ (ts.register? v h).isSome

def Unregisters (i : Nat) (l : Location) (h : Handle) (ts : Tables) (s : Step) : Prop :=
  ∃ v, s = .unregister v h ∧ v.table = i ∧ v.location = l ∧ (ts.unregister? v h).isSome

/-- The step writes the location, and hands over the artifact. -/
def Drains (i : Nat) (l : Location) (h : Handle) (ts : Tables) (s : Step) : Prop :=
  s = .invalidate i l ∧ ∃ ts' revoked, ts.invalidate? i l = some (ts', revoked) ∧
    h ∈ revoked.dependents

def Removes (i : Nat) (l : Location) (h : Handle) (ts : Tables) (s : Step) : Prop :=
  Drains i l h ts s ∨ Unregisters i l h ts s

def Ends (i : Nat) (l : Location) (h : Handle) (ts : Tables) (s : Step) : Prop :=
  s = .invalidate i l ∨ Unregisters i l h ts s

variable {ts ts' : Tables} {i : Nat} {l : Location} {h : Handle} {t : Versions} {v : Version}
  {s : Step}

/-! ## Which steps succeed -/

theorem dependents_of_get? (ht : ts.get? i = some t) (l : Location) :
    ts.dependents i l = t.dependents l := by
  simp [dependents, ht]

theorem isSome_register?_iff : (ts.register? v h).isSome ↔ ts.IsCurrent v := by
  cases ht : ts.get? v.table with
  | none => simp [register?, IsCurrent, ht]
  | some t =>
      rw [isCurrent_iff_of_get? ht]
      by_cases hc : t.IsCurrent v <;> simp [register?, Versions.register?, ht, hc]

theorem isSome_unregister?_iff :
    (ts.unregister? v h).isSome ↔ h ∈ ts.dependents v.table v.location := by
  cases ht : ts.get? v.table with
  | none => simp [unregister?, dependents, ht]
  | some t =>
      rw [dependents_of_get? ht]
      by_cases hm : h ∈ t.dependents v.location <;> simp [unregister?, Versions.unregister?, ht, hm]

theorem dependents_of_invalidate? {revoked : Invalidation}
    (hi : ts.invalidate? i l = some (ts', revoked)) :
    revoked.dependents = ts.dependents i l := by
  obtain ⟨t, t', ht, hr, -, -⟩ := invalidate?_eq_some hi
  rw [dependents_of_get? ht, (invalidate?_spec hr).2.2.1]

theorem dependents_of_invalidate?_eq_none (hi : ts.invalidate? i l = none) :
    ts.dependents i l = [] := by
  cases ht : ts.get? i with
  | none => simp [dependents, ht]
  | some t =>
      have hr : t.invalidate? l = none := by
        by_contra hne
        obtain ⟨p, hp⟩ := Option.ne_none_iff_exists'.1 hne
        simp [invalidate?, ht, hp] at hi
      rw [dependents_of_get? ht, dependents_of_untracked ((invalidate?_eq_none_iff t l).1 hr)]

theorem drains_iff : Drains i l h ts s ↔ h ∈ ts.dependents i l ∧ s = .invalidate i l := by
  constructor
  · rintro ⟨rfl, ts', revoked, hi, hm⟩
    exact ⟨dependents_of_invalidate? hi ▸ hm, rfl⟩
  · rintro ⟨hm, rfl⟩
    refine ⟨rfl, ?_⟩
    cases hi : ts.invalidate? i l with
    | none =>
        rw [dependents_of_invalidate?_eq_none hi] at hm
        cases hm
    | some p => exact ⟨p.1, p.2, rfl, (dependents_of_invalidate? hi).symm ▸ hm⟩

/-- A dependent is removed by a step just if the step ends its registration. -/
theorem removes_iff : Removes i l h ts s ↔ h ∈ ts.dependents i l ∧ Ends i l h ts s := by
  have hu : Unregisters i l h ts s → h ∈ ts.dependents i l := by
    rintro ⟨v, rfl, rfl, rfl, hs⟩
    exact isSome_unregister?_iff.1 hs
  unfold Removes Ends
  rw [drains_iff, and_or_left, and_iff_right_of_imp hu]

/-! ## What a step does to the dependents -/

namespace Step

theorem dependents_act_of_ne (hl : l ≠ s.location) : (s.act t).dependents l = t.dependents l := by
  cases s with
  | read i m => exact dependents_read t m l
  | current i m => rfl
  | invalidate i m =>
      cases hi : t.invalidate? m with
      | none => simp [act, hi]
      | some p =>
          have hd := (invalidate?_spec hi).2.2.2.2.2.2 l
          simp only [location] at hl
          rw [if_neg hl] at hd
          simpa [act, hi] using hd
  | register v h =>
      simp only [location] at hl
      simp only [act, Versions.register?]
      split_ifs
      · rw [Option.getD_some, dependents_modify, if_neg hl]
      · rfl
  | unregister v h =>
      simp only [location] at hl
      simp only [act, Versions.unregister?]
      split_ifs
      · rw [Option.getD_some, dependents_modify, if_neg hl]
      · rfl

theorem mem_dependents_act (ht : t.Sound) (s : Step) :
    h ∈ (s.act t).dependents s.location ↔
      h ∈ t.dependents s.location ∧ ¬ ((∃ i l, s = .invalidate i l) ∨ ∃ v, s = .unregister v h) ∨
        ∃ v, s = .register v h ∧ t.IsCurrent v := by
  cases s with
  | read i l => simp [act, location]
  | current i l => simp [act, location]
  | invalidate i l =>
      cases hi : t.invalidate? l with
      | none =>
          have hd := dependents_of_untracked ((invalidate?_eq_none_iff t l).1 hi)
          simp [act, location, hi, hd]
      | some p =>
          have hd := (invalidate?_spec hi).2.2.2.2.2.2 l
          rw [if_pos rfl] at hd
          simp [act, location, hi, hd]
  | register v k =>
      cases hr : t.register? v k with
      | none =>
          have hc := (register?_eq_none_iff t v k).1 hr
          simp [act, location, hr, hc]
      | some t' =>
          obtain ⟨hc, -, hm, -⟩ := register?_spec hr
          simp [act, location, hr, hc, hm, eq_comm]
  | unregister v k =>
      have hm := (unregister?_getD v k ht.nodup).2.1 v.location h
      simp [act, location, hm, eq_comm]

end Step

theorem dependents_step_of_ne (ts : Tables) (hs : (i, l) ≠ (s.table, s.location)) :
    (ts.step s).dependents i l = ts.dependents i l := by
  unfold dependents
  rw [get?_step]
  split_ifs with hi
  · subst hi
    have hl : l ≠ s.location := fun hl => hs (by rw [hl])
    simp [Function.comp_def, Step.dependents_act_of_ne hl]
  · rfl

theorem registers_self_iff :
    Registers s.table s.location h ts s ↔ ∃ v, s = .register v h ∧ ts.IsCurrent v := by
  unfold Registers
  simp only [isSome_register?_iff]
  constructor
  · rintro ⟨v, he, -, -, hc⟩
    exact ⟨v, he, hc⟩
  · rintro ⟨v, rfl, hc⟩
    exact ⟨v, rfl, rfl, rfl, hc⟩

theorem ends_self_iff (hm : h ∈ ts.dependents s.table s.location) :
    Ends s.table s.location h ts s ↔ (∃ i l, s = .invalidate i l) ∨ ∃ v, s = .unregister v h := by
  constructor
  · rintro (he | ⟨v, he, -⟩)
    · exact Or.inl ⟨_, _, he⟩
    · exact Or.inr ⟨v, he⟩
  · rintro (⟨i, l, rfl⟩ | ⟨v, rfl⟩)
    · exact Or.inl rfl
    · exact Or.inr ⟨v, rfl, rfl, rfl, isSome_unregister?_iff.2 hm⟩

/-- An artifact depends on a location behind a step if it did before and the step does not end that,
or if the step registers it. -/
theorem mem_dependents_step (hs : ts.Sound) (s : Step) :
    h ∈ (ts.step s).dependents i l ↔
      h ∈ ts.dependents i l ∧ ¬ Ends i l h ts s ∨ Registers i l h ts s := by
  by_cases hne : (i, l) = (s.table, s.location)
  · obtain ⟨rfl, rfl⟩ := Prod.mk.inj hne
    rw [registers_self_iff]
    cases ht : ts.get? s.table with
    | none =>
        have hd : ts.dependents s.table s.location = [] := by simp [dependents, ht]
        have hr : ¬ ∃ v, s = .register v h ∧ ts.IsCurrent v := by
          rintro ⟨v, rfl, t, ht', -⟩
          exact Option.some_ne_none t (ht'.symm.trans ht)
        rw [step_of_none ht, hd, or_iff_left hr]
        simp
    | some t =>
        have hstep := get?_step ts s s.table
        rw [if_pos rfl, ht, Option.map_some] at hstep
        rw [dependents_of_get? hstep, Step.mem_dependents_act (hs.versions _ t ht),
          ← dependents_of_get? ht]
        refine or_congr (and_congr_right fun hm => ?_) (exists_congr fun v => and_congr_right ?_)
        · rw [ends_self_iff hm]
        · rintro rfl
          exact (isCurrent_iff_of_get? ht).symm
  · have he : ¬ Ends i l h ts s := by
      rintro (rfl | ⟨v, rfl, rfl, rfl, -⟩) <;> exact hne rfl
    have hr : ¬ Registers i l h ts s := by
      rintro ⟨v, rfl, rfl, rfl, -⟩
      exact hne rfl
    rw [dependents_step_of_ne ts hne, and_iff_left he, or_iff_left hr]

/-! ## Registrations along a run -/

theorem nodup_dependents (hs : ts.Sound) (i : Nat) (l : Location) : (ts.dependents i l).Nodup := by
  cases ht : ts.get? i with
  | none => simp [dependents, ht]
  | some t =>
      rw [dependents_of_get? ht]
      exact (hs.versions i t ht).nodup l

theorem mem_dependents_foldl_iff (hs : ts.Sound) (hh : h ∉ ts.dependents i l) (steps : List Step) :
    h ∈ (steps.foldl step ts).dependents i l ↔
      Since step (Registers i l h) (Ends i l h) ts steps :=
  since_iff_of_step (h ∈ dependents · i l) hh (fun as s => mem_dependents_step (hs.foldl as) s) steps

/-- The same, where a write counts just if it hands over the artifact. -/
theorem mem_dependents_foldl_iff_removes (hs : ts.Sound) (hh : h ∉ ts.dependents i l)
    (steps : List Step) :
    h ∈ (steps.foldl step ts).dependents i l ↔
      Since step (Registers i l h) (Removes i l h) ts steps := by
  refine since_iff_of_step (h ∈ dependents · i l) hh (fun as s => ?_) steps
  rw [mem_dependents_step (hs.foldl as), removes_iff]
  tauto

theorem not_mem_dependents_of_removes (hs : ts.Sound) (hr : Removes i l h ts s) :
    h ∉ (ts.step s).dependents i l := by
  rw [mem_dependents_step hs]
  rintro (⟨-, hn⟩ | hreg)
  · exact hn (removes_iff.1 hr).2
  · obtain ⟨v, rfl, -⟩ := hreg
    rcases hr with ⟨he, -⟩ | ⟨u, he, -⟩ <;> cases he

theorem dependents_step_invalidate (hs : ts.Sound) (i : Nat) (l : Location) :
    (ts.step (.invalidate i l)).dependents i l = [] := by
  refine List.eq_nil_iff_forall_not_mem.2 fun h hm => ?_
  rcases (mem_dependents_step hs _).1 hm with ⟨-, hn⟩ | ⟨v, he, -⟩
  · exact hn (Or.inl rfl)
  · cases he

theorem registers_of_removes (hs : ts.Sound) (hh : h ∉ ts.dependents i l) {between : List Step}
    (hr : Removes i l h (between.foldl step ts) s) :
    Occurs step (Registers i l h) ts between :=
  ((mem_dependents_foldl_iff hs hh between).1 (removes_iff.1 hr).1).occurs

/-- How artifacts depend on the locations of `n` tables after these steps, and from then on. -/
structure Registrations (n : Nat) (steps : List Step) : Prop where
  /-- A registration is accepted just if the version is the current one. -/
  accepted_iff : ∀ v h, ((run n steps).register? v h).isSome ↔
    (run n steps).current? v.table v.location = some v
  /-- A version that was read is accepted until its location is written. -/
  accepted_iff_of_read : ∀ i l ts v, (run n steps).read? i l = some (ts, v) →
    ∀ (later : List Step) h, ((later.foldl step ts).register? v h).isSome ↔ .invalidate i l ∉ later
  nodup : ∀ i l, ((run n steps).dependents i l).Nodup
  /-- The dependents are what was registered since the last write and not taken out since. -/
  mem_iff : ∀ i l h, h ∈ (run n steps).dependents i l ↔
    Since step (Registers i l h) (Ends i l h) (ofCount n) steps
  /-- A write hands over the dependents and leaves none. One that revokes nothing finds none. -/
  drained : ∀ i l, ((run n steps).step (.invalidate i l)).dependents i l = [] ∧
    match (run n steps).invalidate? i l with
    | some (_, revoked) => revoked.dependents = (run n steps).dependents i l
    | none => (run n steps).dependents i l = []
  /-- A dependent stays until a write hands it over or it is taken out. -/
  mem_iff_removes : ∀ i l h, h ∈ (run n steps).dependents i l ↔
    Since step (Registers i l h) (Removes i l h) (ofCount n) steps
  /-- Between two removals there is a registration, so no registration is removed twice. -/
  removed_once : ∀ i l h s, Removes i l h (run n steps) s → ∀ (between : List Step) s',
    Removes i l h (between.foldl step ((run n steps).step s)) s' →
      Occurs step (Registers i l h) ((run n steps).step s) between
  /-- A registration that is refused leads to no removal. Only another one can. -/
  refused : ∀ v h, (run n steps).register? v h = none →
    h ∉ (run n steps).dependents v.table v.location → ∀ (later : List Step) s,
      Removes v.table v.location h (later.foldl step ((run n steps).step (.register v h))) s →
        Occurs step (Registers v.table v.location h) ((run n steps).step (.register v h)) later
  /-- A step changes the dependents of no location but its own. -/
  frame : ∀ s i l, (i, l) ≠ (s.table, s.location) →
    ((run n steps).step s).dependents i l = (run n steps).dependents i l

theorem dependents_ofCount (n i : Nat) (l : Location) : (ofCount n).dependents i l = [] := by
  unfold dependents
  rw [get?_ofCount]
  split_ifs <;> rfl

/-- Whatever the clients ask in whatever order, each accepted registration lasts until one write
hands it over or it is taken out, and nothing else is handed over. -/
theorem run_registrations (n : Nat) (steps : List Step) : Registrations n steps := by
  have hs := sound_run n steps
  have hempty : ∀ i l h, h ∉ (ofCount n).dependents i l := by simp [dependents_ofCount]
  constructor
  case accepted_iff => exact fun v h => isSome_register?_iff.trans isCurrent_iff
  case accepted_iff_of_read =>
    intro i l ts v hr later h
    obtain ⟨rfl, rfl, hc, hs'⟩ := hs.of_read? hr
    rw [isSome_register?_iff, (issued_of_isCurrent hc).isCurrent_foldl_iff hs', and_iff_right hc]
  case nodup => exact nodup_dependents hs
  case mem_iff => exact fun i l h => mem_dependents_foldl_iff (sound_run n []) (hempty i l h) steps
  case drained =>
    intro i l
    refine ⟨dependents_step_invalidate hs i l, ?_⟩
    cases hi : (run n steps).invalidate? i l with
    | some p => exact dependents_of_invalidate? hi
    | none => exact dependents_of_invalidate?_eq_none hi
  case mem_iff_removes =>
    exact fun i l h => mem_dependents_foldl_iff_removes (sound_run n []) (hempty i l h) steps
  case removed_once =>
    intro i l h s hr between s' hr'
    exact registers_of_removes (hs.step s) (not_mem_dependents_of_removes hs hr) hr'
  case refused =>
    intro v h hr hh later s hr'
    refine registers_of_removes (hs.step _) ?_ hr'
    simpa [step, hr] using hh
  case frame => exact fun s i l hne => dependents_step_of_ne _ hne

end Tables

end HotLoop
