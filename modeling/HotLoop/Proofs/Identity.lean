import HotLoop.Proofs.Tables

/-!
# Numbers tell versions apart

The versions of a table are numbered in the order in which they become current, so a number belongs
to one version. A version that a reading handed out comes back from a later reading just if that is
of the same location of the same table, and no write to it lies between the two.
-/

namespace HotLoop

open Versions

namespace Tables

/-- The versions that a step hands out: those that it returns, and the one that it puts in the place
of a version that it revokes. -/
def answers (ts : Tables) : Step → List Version
  | .read i l => ((ts.read? i l).map Prod.snd).toList
  | .current i l => (ts.current? i l).toList
  | .invalidate i l =>
    match ts.invalidate? i l with
    | some (_, revoked) => [revoked.stale, ⟨i, l, revoked.fresh⟩]
    | none => []
  | .register _ _ => []
  | .unregister _ _ => []

def HandsOut (n : Nat) (steps : List Step) (v : Version) : Prop :=
  Occurs step (fun ts s => v ∈ ts.answers s) (ofCount n) steps

/-! ## Counting -/

/-- Every version was the first one of its location or took the place of a revoked one. -/
def Balanced (t : Versions) : Prop := t.next = t.tracked + t.invalidations + 1

theorem Balanced.act {t : Versions} (ht : Balanced t) (s : Step) : Balanced (s.act t) := by
  cases s with
  | read i l =>
      cases hl : t.current? l with
      | some v => rwa [Step.act, read_eq_of_tracked hl]
      | none =>
          have hsize := FinMap.size_insert (Option.map_eq_none_iff.1 hl) (⟨t.next, []⟩ : Slot)
          simp only [Balanced, tracked, Step.act, Versions.read, hl] at ht ⊢
          omega
  | current i l => exact ht
  | invalidate i l =>
      cases hl : t.slots.find? l with
      | none => simpa [Step.act, Versions.invalidate?, hl] using ht
      | some s =>
          have hsize := FinMap.size_insert_of_some hl (⟨t.next, []⟩ : Slot)
          simp only [Balanced, tracked, Step.act, Versions.invalidate?, hl, Option.map_some,
            Option.getD_some] at ht ⊢
          omega
  | register v h =>
      simp only [Step.act, Versions.register?]
      split_ifs
      · simpa only [Balanced, tracked, Option.getD_some, FinMap.size_modify] using ht
      · exact ht
  | unregister v h =>
      simp only [Step.act, Versions.unregister?]
      split_ifs
      · simpa only [Balanced, tracked, Option.getD_some, FinMap.size_modify] using ht
      · exact ht

theorem balanced_run (n : Nat) (steps : List Step) {i : Nat} {t : Versions}
    (ht : (run n steps).get? i = some t) : Balanced t := by
  induction steps using List.reverseRecOn generalizing t with
  | nil =>
      rw [run, List.foldl_nil, get?_ofCount] at ht
      split_ifs at ht
      obtain rfl := Option.some.inj ht
      rfl
  | append_singleton steps s ih =>
      rw [run_concat] at ht
      obtain ⟨u, hu, ⟨-, rfl⟩ | ⟨-, rfl⟩⟩ := get?_step_cases ht
      · exact (ih hu).act s
      · exact ih hu

/-! ## Versions that were current once -/

variable {n : Nat} {steps : List Step} {s : Step} {u v : Version}

def Appeared (n : Nat) (steps : List Step) (v : Version) : Prop :=
  ∃ before, before <+: steps ∧ (run n before).IsCurrent v

theorem Appeared.append (hv : Appeared n steps v) (more : List Step) :
    Appeared n (steps ++ more) v := by
  obtain ⟨before, hb, hc⟩ := hv
  exact ⟨before, hb.trans (List.prefix_append steps more), hc⟩

/-- A version appears by a step if it is the next one of the location that the step is about. -/
theorem Appeared.of_concat (hv : Appeared n (steps ++ [s]) v) :
    Appeared n steps v ∨
      ∃ t, (run n steps).get? s.table = some t ∧ v = ⟨s.table, s.location, t.next⟩ := by
  obtain ⟨before, hb, hc⟩ := hv
  rcases List.prefix_concat_iff.1 hb with rfl | hb
  · obtain ⟨t', ht', hc⟩ := hc
    rw [Option.mem_def, run_concat] at ht'
    obtain ⟨t, ht, ⟨hi, rfl⟩ | ⟨-, rfl⟩⟩ := get?_step_cases ht'
    · rcases Step.fresh_of_act hc with hc | hv
      · exact Or.inl ⟨steps, List.prefix_rfl, t, ht, hc⟩
      · rw [hi] at ht
        rw [(sound_run n steps).table _ t ht] at hv
        exact Or.inr ⟨t, ht, hv⟩
    · exact Or.inl ⟨steps, List.prefix_rfl, t', ht, hc⟩
  · exact Or.inl ⟨before, hb, hc⟩

theorem Appeared.id_lt (hv : Appeared n steps v) {t : Versions}
    (ht : (run n steps).get? v.table = some t) : v.id < t.next := by
  have hcur : ∀ before, (run n before).IsCurrent v → ∀ t, (run n before).get? v.table = some t →
      v.id < t.next := by
    intro before hc t ht
    exact ((sound_run n before).versions _ t ht).id_lt _ v ((isCurrent_iff_of_get? ht).1 hc)
  obtain ⟨before, hb, hc⟩ := hv
  induction steps using List.reverseRecOn generalizing t with
  | nil =>
      obtain rfl := List.prefix_nil.1 hb
      exact hcur _ hc t ht
  | append_singleton steps s ih =>
      rcases List.prefix_concat_iff.1 hb with rfl | hb
      · exact hcur _ hc t ht
      · rw [run_concat] at ht
        obtain ⟨u, hu, ⟨-, rfl⟩ | ⟨-, rfl⟩⟩ := get?_step_cases ht
        · exact (ih hu hb).trans_le (Step.next_le_act s u)
        · exact ih hu hb

/-- A number is never given to two versions of a table. -/
theorem Appeared.eq_of_id (hu : Appeared n steps u) (hv : Appeared n steps v)
    (ht : u.table = v.table) (hi : u.id = v.id) : u = v := by
  induction steps using List.reverseRecOn with
  | nil =>
      obtain ⟨before, hb, t, hget, hc⟩ := hu
      obtain rfl := List.prefix_nil.1 hb
      rw [Option.mem_def, run, List.foldl_nil, get?_ofCount] at hget
      split_ifs at hget
      obtain rfl := Option.some.inj hget
      cases hc
  | append_singleton steps s ih =>
      rcases hu.of_concat with hu | ⟨t, hget, rfl⟩ <;>
        rcases hv.of_concat with hv | ⟨t', hget', rfl⟩
      · exact ih hu hv
      · have hlt := hu.id_lt (by rw [ht]; exact hget')
        exact absurd hi hlt.ne
      · have hlt := hv.id_lt (by rw [← ht]; exact hget)
        exact absurd hi hlt.ne'
      · rw [hget] at hget'
        rw [Option.some.inj hget']

/-- What is handed out was current before the step, or is current behind it. -/
theorem isCurrent_of_mem_answers {ts : Tables} (hs : ts.Sound) (hv : v ∈ ts.answers s) :
    ts.IsCurrent v ∨ (ts.step s).IsCurrent v := by
  cases s with
  | read i l =>
      obtain ⟨⟨ts', u⟩, hr, rfl⟩ := Option.map_eq_some_iff.1 (Option.mem_toList.1 hv)
      obtain ⟨t, ht, -, rfl⟩ := read?_eq_some hr
      exact Or.inr (hs.of_read? hr).2.2.1
  | current i l => exact Or.inl (hs.of_current? (Option.mem_toList.1 hv)).2.2
  | invalidate i l =>
      cases hi : ts.invalidate? i l with
      | none => simp [answers, hi] at hv
      | some p =>
          obtain ⟨ts', revoked⟩ := p
          obtain ⟨hstale, hcur⟩ := hs.of_invalidate? hi
          obtain ⟨-, -, -, -, -, rfl⟩ := invalidate?_eq_some hi
          simp only [answers, hi, List.mem_cons, List.not_mem_nil, or_false] at hv
          rcases hv with rfl | rfl
          · exact Or.inl (hs.of_current? hstale).2.2
          · exact Or.inr ((hcur _).2 (Or.inl rfl))
  | register v h => cases hv
  | unregister v h => cases hv

theorem HandsOut.appeared (hv : HandsOut n steps v) : Appeared n steps v := by
  obtain ⟨before, s, after, rfl, hmem⟩ := occurs_iff.1 hv
  rw [List.append_cons]
  refine Appeared.append ?_ after
  rcases isCurrent_of_mem_answers (sound_run n before) hmem with hc | hc
  · exact ⟨before, List.prefix_append before [s], hc⟩
  · exact ⟨before ++ [s], List.prefix_rfl, by rw [run_concat]; exact hc⟩

/-! ## Versions along a run -/

variable {i j : Nat} {l m : Location}

theorem isSome_get?_run (n : Nat) (steps : List Step) (i : Nat) :
    ((run n steps).get? i).isSome ↔ i < n := by
  induction steps using List.reverseRecOn with
  | nil =>
      rw [run, List.foldl_nil, get?_ofCount]
      split_ifs with hi <;> simp [hi]
  | append_singleton steps s ih =>
      rw [run_concat, get?_step]
      split_ifs
      · rwa [Option.isSome_map]
      · exact ih

/-- Two readings hand out one version just if they are of one location, which is not written
between them. -/
theorem Sound.read?_eq_iff {ts ts' ts'' : Tables} (hs : ts.Sound)
    (hv : ts.read? i l = some (ts', v)) {between : List Step}
    (hu : (between.foldl Tables.step ts').read? j m = some (ts'', u)) :
    v = u ↔ i = j ∧ l = m ∧ .invalidate i l ∉ between := by
  obtain ⟨hvi, hvl, hvc, hs'⟩ := hs.of_read? hv
  obtain ⟨huj, hum, huc, -⟩ := (hs'.foldl between).of_read? hu
  obtain ⟨t, -, -, rfl⟩ := read?_eq_some hu
  have hcur := (issued_of_isCurrent hvc).isCurrent_foldl_iff hs' (between ++ [.read j m])
  simp only [List.foldl_append, List.foldl_cons, List.foldl_nil, hvi, hvl, List.mem_append,
    List.mem_singleton, reduceCtorEq, or_false, and_iff_right hvc] at hcur
  rw [← hcur]
  constructor
  · rintro rfl
    exact ⟨hvi.symm.trans huj, hvl.symm.trans hum, huc⟩
  · rintro ⟨hij, hlm, hvc'⟩
    exact hvc'.unique huc (hvi.trans (hij.trans huj.symm)) (hvl.trans (hlm.trans hum.symm))

/-- What the versions of `n` tables are like after these steps, and from then on. -/
structure Identity (n : Nat) (steps : List Step) : Prop where
  /-- A location of a table can be read at any time. -/
  readable : ∀ i l, ((run n steps).read? i l).isSome ↔ i < n
  /-- A version comes back from a later reading just if that is of the same location of the same
  table, which is not written in the meantime. -/
  read_eq_iff : ∀ i l ts v, (run n steps).read? i l = some (ts, v) →
    ∀ (between : List Step) j m ts' u, (between.foldl step ts).read? j m = some (ts', u) →
      (v = u ↔ i = j ∧ l = m ∧ .invalidate i l ∉ between)
  /-- An invalidation revokes the version that it returns as the stale one, for ever. It makes the
  fresh one current, and no other version changes. -/
  revoked : ∀ i l ts revoked, (run n steps).invalidate? i l = some (ts, revoked) →
    (run n steps).current? i l = some revoked.stale ∧
      (∀ later : List Step, ¬ (later.foldl step ts).IsCurrent revoked.stale) ∧
      ts.current? i l = some ⟨i, l, revoked.fresh⟩ ∧
      ∀ v, v ≠ revoked.stale → v ≠ ⟨i, l, revoked.fresh⟩ →
        (ts.IsCurrent v ↔ (run n steps).IsCurrent v)
  /-- No number is given to two versions of a table. -/
  unique : ∀ u v, HandsOut n steps u → HandsOut n steps v → u.table = v.table → u.id = v.id → u = v
  allocated : ∀ i t, (run n steps).get? i = some t → t.allocated = t.tracked + t.invalidations

/-- However reads and writes alternate, a number stands for one version, which holds until the next
write to its location. -/
theorem run_identity (n : Nat) (steps : List Step) : Identity n steps where
  readable := fun i l => by
    rw [read?, Option.isSome_map, isSome_get?_run]
  read_eq_iff := fun i l ts v hv between j m ts' u hu => (sound_run n steps).read?_eq_iff hv hu
  revoked := fun i l ts revoked hi => by
    have hs := sound_run n steps
    obtain ⟨hstale, hcur⟩ := hs.of_invalidate? hi
    obtain ⟨hvi, hvl, hv⟩ := hs.of_current? hstale
    obtain ⟨-, -, -, -, -, rfl⟩ := invalidate?_eq_some hi
    refine ⟨hstale, fun later => ?_, isCurrent_iff.1 ((hcur _).2 (Or.inl rfl)), fun v hns hnf => ?_⟩
    · have hlater := (issued_of_isCurrent hv).isCurrent_foldl_iff hs (.invalidate i l :: later)
      rw [List.foldl_cons, hvi, hvl] at hlater
      rw [hlater, not_and_not_right]
      exact fun _ => List.mem_cons_self
    · rw [hcur, or_iff_right hnf, and_iff_left hns]
  unique := fun u v hu hv => hu.appeared.eq_of_id hv.appeared
  allocated := fun i t ht => by
    have hb := balanced_run n steps ht
    unfold Balanced at hb
    unfold allocated
    omega

end Tables

end HotLoop
