import HotLoop.Proofs.Occurrence
import HotLoop.Proofs.Versions
import HotLoop.Version.Tables

/-!
# Clients of several version tables

A client reads and writes locations of several tables, and has artifacts depend on the versions that
it was handed. Each request is a matter of one table and of one location there. `Step.act` says what
it does to the table, and a version that was issued stays current until its location is written.
-/

namespace HotLoop

open Versions

namespace Tables

/-- What a client asks. Tables are told by their numbers, and a version tells its own. -/
inductive Step where
  | read (i : Nat) (l : Location)
  | current (i : Nat) (l : Location)
  | invalidate (i : Nat) (l : Location)
  | register (v : Version) (h : Handle)
  | unregister (v : Version) (h : Handle)
  deriving DecidableEq

namespace Step

def table : Step → Nat
  | .read i _ => i
  | .current i _ => i
  | .invalidate i _ => i
  | .register v _ => v.table
  | .unregister v _ => v.table

def location : Step → Location
  | .read _ l => l
  | .current _ l => l
  | .invalidate _ l => l
  | .register v _ => v.location
  | .unregister v _ => v.location

def act : Step → Versions → Versions
  | .read _ l, t => (t.read l).1
  | .current _ _, t => t
  | .invalidate _ l, t => ((t.invalidate? l).map Prod.fst).getD t
  | .register v h, t => (t.register? v h).getD t
  | .unregister v h, t => (t.unregister? v h).getD t

end Step

def read? (ts : Tables) (i : Nat) (l : Location) : Option (Tables × Version) :=
  (ts.get? i).map fun t => (ts.put i (t.read l).1, (t.read l).2)

def current? (ts : Tables) (i : Nat) (l : Location) : Option Version :=
  (ts.get? i).bind fun t => t.current? l

def invalidate? (ts : Tables) (i : Nat) (l : Location) : Option (Tables × Invalidation) := do
  let t ← ts.get? i
  let (t, revoked) ← t.invalidate? l
  some (ts.put i t, revoked)

def dependents (ts : Tables) (i : Nat) (l : Location) : List Handle :=
  ((ts.get? i).map fun t => t.dependents l).getD []

/-- The effect of a step. One that is refused, or asks a table that there is not, changes nothing. -/
def step (ts : Tables) : Step → Tables
  | .read i l => ((ts.read? i l).map Prod.fst).getD ts
  | .current _ _ => ts
  | .invalidate i l => ((ts.invalidate? i l).map Prod.fst).getD ts
  | .register v h => (ts.register? v h).getD ts
  | .unregister v h => (ts.unregister? v h).getD ts

def run (n : Nat) (steps : List Step) : Tables := steps.foldl step (ofCount n)

theorem run_concat (n : Nat) (steps : List Step) (s : Step) :
    run n (steps ++ [s]) = (run n steps).step s :=
  List.foldl_append

/-! ## What a step does to its table -/

namespace Step

variable {s : Step} {t : Versions} {v : Version}

theorem act_cases (s : Step) (t : Versions) :
    (∃ i l, s = .read i l ∧ s.act t = (t.read l).1) ∨
      (∃ i l revoked, s = .invalidate i l ∧ t.invalidate? l = some (s.act t, revoked)) ∨
      (∀ i l, s = .invalidate i l → t.current? l = none) ∧ SameVersions t (s.act t) ∧
        ((∀ l, (t.dependents l).Nodup) → ∀ l, ((s.act t).dependents l).Nodup) := by
  cases s with
  | read i l => exact Or.inl ⟨i, l, rfl, rfl⟩
  | current i l => exact Or.inr (Or.inr ⟨by simp, SameVersions.refl t, id⟩)
  | invalidate i l =>
      cases hi : t.invalidate? l with
      | none =>
          have he : (Step.invalidate i l).act t = t := by simp only [act, hi, Option.map_none,
            Option.getD_none]
          refine Or.inr (Or.inr ⟨?_, he.symm ▸ SameVersions.refl t, by rw [he]; exact id⟩)
          rintro j m hs
          cases hs
          exact (invalidate?_eq_none_iff t l).1 hi
      | some p => exact Or.inr (Or.inl ⟨i, l, p.2, rfl, by simp [act, hi]⟩)
  | register v h =>
      refine Or.inr (Or.inr ⟨by simp, ?_⟩)
      cases hr : t.register? v h with
      | none =>
          simp only [act, hr, Option.getD_none]
          exact ⟨SameVersions.refl t, id⟩
      | some t' =>
          simp only [act, hr, Option.getD_some]
          obtain ⟨-, hv, -, hn⟩ := register?_spec hr
          exact ⟨hv, hn⟩
  | unregister v h =>
      refine Or.inr (Or.inr ⟨by simp, ?_, fun hn => (unregister?_getD v h hn).2.2⟩)
      cases hu : t.unregister? v h with
      | none =>
          simp only [act, hu, Option.getD_none]
          exact SameVersions.refl t
      | some t' =>
          simp only [act, hu, Option.getD_some]
          exact (unregister?_perm hu).1

theorem table_act (s : Step) (t : Versions) : (s.act t).table = t.table := by
  rcases act_cases s t with ⟨i, l, -, he⟩ | ⟨i, l, revoked, -, hi⟩ | ⟨-, hv, -⟩
  · rw [he, table_read]
  · exact (invalidate?_spec hi).2.2.2.1
  · exact hv.table

theorem sound_act (ht : t.Sound) (s : Step) : (s.act t).Sound := by
  rcases act_cases s t with ⟨i, l, -, he⟩ | ⟨i, l, revoked, -, hi⟩ | ⟨-, hv, hn⟩
  · rw [he]
    exact ht.read l
  · exact ht.invalidate hi
  · exact ht.of_sameVersions hv (hn ht.nodup)

theorem issued_act (hv : t.Issued v) (ht : t.Sound) (s : Step) : (s.act t).Issued v := by
  rcases act_cases s t with ⟨i, l, -, he⟩ | ⟨i, l, revoked, -, hi⟩ | ⟨-, hs, -⟩
  · rw [he]
    exact hv.read l
  · exact hv.invalidate ht hi
  · exact (hs.issued_iff v).2 hv

/-- Among the steps on its table, just a write to its location makes an issued version stale. -/
theorem isCurrent_act_iff (hv : t.Issued v) (ht : t.Sound) (s : Step) :
    (s.act t).IsCurrent v ↔ t.IsCurrent v ∧ ∀ i, s ≠ .invalidate i v.location := by
  rcases act_cases s t with ⟨i, l, rfl, he⟩ | ⟨i, l, revoked, rfl, hi⟩ | ⟨hn, hs, -⟩
  · rw [he, hv.isCurrent_read_iff]
    simp
  · rw [hv.isCurrent_invalidate_iff ht hi]
    simp [eq_comm]
  · rw [hs.isCurrent_iff, and_iff_left]
    rintro i rfl
    obtain ⟨-, u, hu, -⟩ := hv
    rw [hn i _ rfl] at hu
    cases hu

theorem next_le_act (s : Step) (t : Versions) : t.next ≤ (s.act t).next := by
  rcases act_cases s t with ⟨i, l, -, he⟩ | ⟨i, l, revoked, -, hi⟩ | ⟨-, hv, -⟩
  · rw [he]
    unfold Versions.read
    cases t.current? l with
    | none => exact Nat.le_succ _
    | some v => exact le_rfl
  · rw [(invalidate?_spec hi).2.2.2.2.1]
    exact Nat.le_succ _
  · rw [hv.next]

theorem fresh_of_act (hc : (s.act t).IsCurrent v) :
    t.IsCurrent v ∨ v = ⟨t.table, s.location, t.next⟩ := by
  rcases act_cases s t with ⟨i, l, rfl, he⟩ | ⟨i, l, revoked, rfl, hi⟩ | ⟨-, hv, -⟩
  · rw [he] at hc
    cases hl : t.current? l with
    | some u =>
        rw [read_eq_of_tracked hl] at hc
        exact Or.inl hc
    | none =>
        have hr := current?_read t l v.location
        rw [(isCurrent_iff _ v).1 hc] at hr
        split_ifs at hr with hv
        · rw [Option.some.inj hr]
          simp only [Versions.read, hl]
          exact Or.inr rfl
        · exact Or.inl hr.symm
  · have hr := (invalidate?_spec hi).2.2.2.2.2.1 v.location
    rw [(isCurrent_iff _ v).1 hc] at hr
    split_ifs at hr with hv
    · exact Or.inr (Option.some.inj hr)
    · exact Or.inl hr.symm
  · exact Or.inl ((hv.isCurrent_iff v).1 hc)

end Step

/-! ## Tables of their own -/

variable {ts ts' : Tables} {i j : Nat} {l : Location} {t : Versions} {v : Version}

theorem get?_put (ht : ts.get? i = some t) (u : Versions) (j : Nat) :
    (ts.put i u).get? j = if j = i then some u else ts.get? j := by
  obtain ⟨hlt, -⟩ := List.getElem?_eq_some_iff.1 ht
  unfold get? put
  rw [List.getElem?_set]
  by_cases hj : j = i
  · subst hj
    simp [hlt]
  · simp [hj, Ne.symm hj]

theorem put_self (ht : ts.get? i = some t) : ts.put i t = ts := by
  obtain ⟨hlt, rfl⟩ := List.getElem?_eq_some_iff.1 ht
  unfold put
  rw [List.set_getElem_self]

theorem step_of_none {s : Step} (ht : ts.get? s.table = none) : ts.step s = ts := by
  cases s <;> simp only [Step.table] at ht <;>
    simp [step, read?, invalidate?, register?, unregister?, ht]

theorem step_of_some {s : Step} (ht : ts.get? s.table = some t) :
    ts.step s = ts.put s.table (s.act t) := by
  cases s with
  | read i l =>
      simp only [Step.table] at ht
      simp [step, read?, ht, Step.table, Step.act]
  | current i l => exact (put_self ht).symm
  | invalidate i l =>
      simp only [Step.table] at ht
      simp only [step, invalidate?, ht, Step.table, Step.act]
      cases hi : t.invalidate? l with
      | none => simpa [hi] using (put_self ht).symm
      | some p => simp [hi]
  | register v h =>
      simp only [Step.table] at ht
      simp only [step, register?, ht, Step.table, Step.act]
      cases hr : t.register? v h with
      | none => simpa [hr] using (put_self ht).symm
      | some t' => simp [hr]
  | unregister v h =>
      simp only [Step.table] at ht
      simp only [step, unregister?, ht, Step.table, Step.act]
      cases hr : t.unregister? v h with
      | none => simpa [hr] using (put_self ht).symm
      | some t' => simp [hr]

/-- A step acts on its own table and leaves the others alone. -/
theorem get?_step (ts : Tables) (s : Step) (j : Nat) :
    (ts.step s).get? j = if j = s.table then (ts.get? j).map s.act else ts.get? j := by
  cases ht : ts.get? s.table with
  | none =>
      rw [step_of_none ht]
      split_ifs with hj
      · rw [hj, ht, Option.map_none]
      · rfl
  | some t =>
      rw [step_of_some ht, get?_put ht]
      split_ifs with hj
      · rw [hj, ht, Option.map_some]
      · rfl

theorem get?_step_cases {s : Step} (ht : (ts.step s).get? j = some t) :
    ∃ u, ts.get? j = some u ∧ (j = s.table ∧ t = s.act u ∨ j ≠ s.table ∧ t = u) := by
  rw [get?_step] at ht
  split_ifs at ht with hj
  · obtain ⟨u, hu, he⟩ := Option.map_eq_some_iff.1 ht
    exact ⟨u, hu, Or.inl ⟨hj, he.symm⟩⟩
  · exact ⟨t, ht, Or.inr ⟨hj, rfl⟩⟩

theorem get?_ofCount (n i : Nat) :
    (ofCount n).get? i = if i < n then some { table := i } else none := by
  unfold ofCount get?
  by_cases hi : i < n
  · simp [hi]
  · simp [hi]

theorem isCurrent_iff_of_get? (ht : ts.get? v.table = some t) :
    ts.IsCurrent v ↔ t.IsCurrent v := by
  simp [IsCurrent, ht]

theorem isCurrent_iff : ts.IsCurrent v ↔ ts.current? v.table v.location = some v :=
  Option.bind_eq_some_iff.symm

structure Sound (ts : Tables) : Prop where
  table : ∀ i t, ts.get? i = some t → t.table = i
  versions : ∀ i t, ts.get? i = some t → t.Sound

theorem Sound.step (hs : ts.Sound) (s : Step) : (ts.step s).Sound := by
  constructor
  case table =>
    intro i t ht
    obtain ⟨u, hu, ⟨-, rfl⟩ | ⟨-, rfl⟩⟩ := get?_step_cases ht
    · rw [Step.table_act]
      exact hs.table i u hu
    · exact hs.table i t hu
  case versions =>
    intro i t ht
    obtain ⟨u, hu, ⟨-, rfl⟩ | ⟨-, rfl⟩⟩ := get?_step_cases ht
    · exact Step.sound_act (hs.versions i u hu) s
    · exact hs.versions i t hu

theorem Sound.foldl (hs : ts.Sound) (steps : List Step) : (steps.foldl Tables.step ts).Sound := by
  induction steps generalizing ts with
  | nil => exact hs
  | cons s steps ih => exact ih (hs.step s)

theorem sound_run (n : Nat) (steps : List Step) : (run n steps).Sound := by
  refine Sound.foldl ⟨fun i t ht => ?_, fun i t ht => ?_⟩ steps <;>
    rw [get?_ofCount] at ht <;> split_ifs at ht <;> obtain rfl := Option.some.inj ht
  · rfl
  · exact Versions.sound_empty i

def Issued (ts : Tables) (v : Version) : Prop := ∃ t, ts.get? v.table = some t ∧ t.Issued v

theorem issued_of_isCurrent (hc : ts.IsCurrent v) : ts.Issued v := by
  obtain ⟨t, ht, hc⟩ := hc
  exact ⟨t, ht, Versions.issued_of_isCurrent hc⟩

theorem Issued.step (hv : ts.Issued v) (hs : ts.Sound) (s : Step) : (ts.step s).Issued v := by
  obtain ⟨t, ht, hv⟩ := hv
  unfold Tables.Issued
  rw [get?_step, ht]
  split_ifs
  · exact ⟨s.act t, rfl, Step.issued_act hv (hs.versions _ t ht) s⟩
  · exact ⟨t, rfl, hv⟩

theorem Issued.isCurrent_step_iff (hv : ts.Issued v) (hs : ts.Sound) (s : Step) :
    (ts.step s).IsCurrent v ↔ ts.IsCurrent v ∧ s ≠ .invalidate v.table v.location := by
  obtain ⟨t, ht, hv⟩ := hv
  have hstep := get?_step ts s v.table
  rw [ht] at hstep
  rw [isCurrent_iff_of_get? ht]
  split_ifs at hstep with hi
  · rw [isCurrent_iff_of_get? hstep, Step.isCurrent_act_iff hv (hs.versions _ t ht)]
    refine and_congr_right fun _ => ⟨fun h => h _, ?_⟩
    rintro h i rfl
    exact h (by rw [hi]; rfl)
  · rw [isCurrent_iff_of_get? hstep, and_iff_left]
    rintro rfl
    exact hi rfl

/-- A version that was handed out is current just until its location is written. -/
theorem Issued.isCurrent_foldl_iff (hv : ts.Issued v) (hs : ts.Sound) (steps : List Step) :
    (steps.foldl Tables.step ts).IsCurrent v ↔
      ts.IsCurrent v ∧ .invalidate v.table v.location ∉ steps := by
  induction steps generalizing ts with
  | nil => simp
  | cons s steps ih =>
      rw [List.foldl_cons, ih (hv.step hs s) (hs.step s), hv.isCurrent_step_iff hs, List.mem_cons,
        not_or, and_assoc, ne_comm]

/-! ## What is handed out -/

theorem read?_eq_some (hr : ts.read? i l = some (ts', v)) :
    ∃ t, ts.get? i = some t ∧ v = (t.read l).2 ∧ ts' = ts.step (.read i l) := by
  obtain ⟨t, ht, he⟩ := Option.map_eq_some_iff.1 hr
  obtain ⟨rfl, rfl⟩ := Prod.mk.inj he
  have hs : ts.step (.read i l) = ts.put i (t.read l).1 := step_of_some ht
  exact ⟨t, ht, rfl, hs.symm⟩

theorem invalidate?_eq_some {revoked : Invalidation}
    (hi : ts.invalidate? i l = some (ts', revoked)) :
    ∃ t t', ts.get? i = some t ∧ t.invalidate? l = some (t', revoked) ∧
      ts' = ts.put i t' ∧ ts' = ts.step (.invalidate i l) := by
  obtain ⟨t, ht, hi'⟩ := Option.bind_eq_some_iff.1 hi
  obtain ⟨⟨t', r⟩, hr, he⟩ := Option.bind_eq_some_iff.1 hi'
  obtain ⟨rfl, rfl⟩ := Prod.mk.inj (Option.some.inj he)
  refine ⟨t, t', ht, hr, rfl, ?_⟩
  simp only [step, hi, Option.map_some, Option.getD_some]

theorem Sound.of_read? (hs : ts.Sound) (hr : ts.read? i l = some (ts', v)) :
    v.table = i ∧ v.location = l ∧ ts'.IsCurrent v ∧ ts'.Sound := by
  obtain ⟨t, ht, rfl, rfl⟩ := read?_eq_some hr
  have hc := isCurrent_read t l
  have hi : (t.read l).2.table = i := by
    rw [table_of_current? hc, table_read]
    exact hs.table i t ht
  refine ⟨hi, location_read t l, ⟨(t.read l).1, ?_, hc⟩, hs.step _⟩
  simp [hi, get?_step, Step.table, Step.act, ht]

theorem IsCurrent.unique {u : Version} (hu : ts.IsCurrent u) (hv : ts.IsCurrent v)
    (ht : u.table = v.table) (hl : u.location = v.location) : u = v := by
  obtain ⟨t, htu, hu⟩ := hu
  obtain ⟨t', htv, hv⟩ := hv
  rw [Option.mem_def] at htu htv
  rw [ht, htv] at htu
  obtain rfl := Option.some.inj htu
  rw [Versions.isCurrent_iff] at hu hv
  rw [hl, hv] at hu
  exact (Option.some.inj hu).symm

theorem Sound.of_current? (hs : ts.Sound) (hv : ts.current? i l = some v) :
    v.table = i ∧ v.location = l ∧ ts.IsCurrent v := by
  obtain ⟨t, ht, hc⟩ := Option.bind_eq_some_iff.1 hv
  have hi : v.table = i := by rw [table_of_current? hc, hs.table i t ht]
  refine ⟨hi, location_of_current? hc, t, by rw [hi]; exact ht, ?_⟩
  rwa [Versions.isCurrent_iff, location_of_current? hc]

/-- An invalidation puts the fresh version in the place of the stale one. -/
theorem Sound.of_invalidate? (hs : ts.Sound) {revoked : Invalidation}
    (hi : ts.invalidate? i l = some (ts', revoked)) :
    ts.current? i l = some revoked.stale ∧
      ∀ u, ts'.IsCurrent u ↔ u = ⟨i, l, revoked.fresh⟩ ∨ ts.IsCurrent u ∧ u ≠ revoked.stale := by
  obtain ⟨t, t', ht, hr, hput, -⟩ := invalidate?_eq_some hi
  obtain ⟨hstale, hfresh, -, -, -, hcur, -⟩ := invalidate?_spec hr
  have hold : ts.current? i l = some revoked.stale := by simp [current?, ht, hstale]
  refine ⟨hold, fun u => ?_⟩
  obtain ⟨hvi, hvl, hv⟩ := hs.of_current? hold
  have hget := get?_put ht t' u.table
  rw [← hput] at hget
  by_cases hu : u.table = i ∧ u.location = l
  · obtain ⟨hui, hul⟩ := hu
    have hn : ¬ (ts.IsCurrent u ∧ u ≠ revoked.stale) := fun h =>
      h.2 (h.1.unique hv (hui.trans hvi.symm) (hul.trans hvl.symm))
    rw [if_pos hui] at hget
    rw [isCurrent_iff_of_get? hget, Versions.isCurrent_iff, hcur, if_pos hul, or_iff_left hn,
      hs.table i t ht, hfresh, Option.some_inj, eq_comm]
  · have hne : u ≠ ⟨i, l, revoked.fresh⟩ := by
      rintro rfl
      exact hu ⟨rfl, rfl⟩
    have hns : u ≠ revoked.stale := by
      rintro rfl
      exact hu ⟨hvi, hvl⟩
    rw [or_iff_right hne, and_iff_left hns]
    split_ifs at hget with hui
    · rw [isCurrent_iff_of_get? hget, isCurrent_iff_of_get? (hui ▸ ht), Versions.isCurrent_iff,
        hcur, if_neg fun hul => hu ⟨hui, hul⟩, Versions.isCurrent_iff]
    · unfold IsCurrent
      rw [hget]

end Tables

end HotLoop
