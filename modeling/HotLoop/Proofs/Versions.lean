import Mathlib.Tactic
import HotLoop.Version.Guards

/-!
# What the operations do to a version table

A version table is seen through `current?` and `dependents`, and every operation is described by
what it does to the two. `Issued` says that a version was handed out by the table: it is the
current one of its location or an older one. An issued version that is stale stays stale, whatever
happens to the table.
-/

namespace HotLoop

namespace Versions

/-! ## Dependents of a slot -/

theorem replace_perm {h : Handle} (last : Handle) {l : List Handle} (hm : h ∈ l) :
    (l.replace h last).Perm (last :: l.erase h) := by
  induction l with
  | nil => cases hm
  | cons d l ih =>
      by_cases hd : d = h
      · subst hd
        simp
      · have hl : h ∈ l := (List.mem_cons.1 hm).resolve_left (Ne.symm hd)
        have hne : (h == d) = false := beq_false_of_ne (Ne.symm hd)
        rw [List.replace_cons, List.erase_cons_tail (by simpa using hd), hne]
        exact ((ih hl).cons d).trans (List.Perm.swap last d _)

/-- Dropping a dependent erases it. Only the order of the others may change. -/
theorem Slot.drop_perm (s : Slot) {h : Handle} (hm : h ∈ s.dependents) :
    (s.drop h).dependents.Perm (s.dependents.erase h) := by
  cases hs : s.dependents.getLast? with
  | none =>
      rw [List.getLast?_eq_none_iff.1 hs] at hm
      cases hm
  | some last =>
      have hd : s.dependents = s.dependents.dropLast ++ [last] := by
        obtain ⟨hne, hlast⟩ := List.getLast?_eq_some_iff.1 hs
        rw [hlast, List.dropLast_concat]
      have he : (s.drop h).dependents = s.dependents.dropLast.replace h last := by
        simp only [Slot.drop, hs]
      rw [he]
      generalize s.dependents.dropLast = front at hd
      rw [hd]
      by_cases hf : h ∈ front
      · rw [List.erase_append_left _ hf]
        exact (replace_perm last hf).trans (List.perm_append_singleton last _).symm
      · have hl : h = last := by
          rw [hd] at hm
          simpa [hf] using hm
        subst hl
        rw [List.erase_append_right _ hf, List.replace_of_not_mem hf]
        simp

theorem Slot.mem_add {s : Slot} {h d : Handle} :
    d ∈ (s.add h).dependents ↔ d ∈ s.dependents ∨ d = h := by
  unfold Slot.add
  split_ifs with hm
  · exact ⟨Or.inl, fun hd => hd.elim id (fun he => he ▸ hm)⟩
  · simp

theorem Slot.nodup_add {s : Slot} (h : Handle) (hs : s.dependents.Nodup) :
    (s.add h).dependents.Nodup := by
  unfold Slot.add
  split_ifs with hm
  · exact hs
  · exact List.nodup_append.2 ⟨hs, by simp, fun a ha b hb he => hm (by simp_all)⟩

/-! ## The table through its view -/

variable (t : Versions) (l : Location) (v : Version) (h : Handle)

theorem isCurrent_iff : t.IsCurrent v ↔ t.current? v.location = some v := Iff.rfl

theorem location_of_current? {t : Versions} {l : Location} {v : Version}
    (hv : t.current? l = some v) : v.location = l := by
  unfold current? at hv
  obtain ⟨s, _, rfl⟩ := Option.map_eq_some_iff.1 hv
  rfl

theorem table_of_current? {t : Versions} {l : Location} {v : Version}
    (hv : t.current? l = some v) : v.table = t.table := by
  unfold current? at hv
  obtain ⟨s, _, rfl⟩ := Option.map_eq_some_iff.1 hv
  rfl

theorem dependents_of_untracked {t : Versions} {l : Location} (hl : t.current? l = none) :
    t.dependents l = [] := by
  unfold current? at hl
  unfold dependents
  rw [Option.map_eq_none_iff.1 hl]
  rfl

theorem current?_insert (s : Slot) (n k : Nat) (j : Location) :
    current? { t with slots := t.slots.insert l s, next := n, invalidations := k } j =
      if j = l then some ⟨t.table, l, s.current⟩ else t.current? j := by
  simp only [current?, FinMap.find?_insert]
  by_cases hj : j = l
  · simp [hj]
  · simp [hj]

theorem dependents_insert (s : Slot) (n k : Nat) (j : Location) :
    dependents { t with slots := t.slots.insert l s, next := n, invalidations := k } j =
      if j = l then s.dependents else t.dependents j := by
  simp only [dependents, FinMap.find?_insert]
  by_cases hj : j = l
  · simp [hj]
  · simp [hj]

/-! ### Reading -/

theorem read_eq_of_tracked {t : Versions} {l : Location} {v : Version}
    (hv : t.current? l = some v) : t.read l = (t, v) := by
  simp only [read, hv]

theorem current?_read (j : Location) :
    (t.read l).1.current? j = if j = l then some (t.read l).2 else t.current? j := by
  cases hl : t.current? l with
  | some v =>
      rw [read_eq_of_tracked hl]
      by_cases hj : j = l
      · rw [if_pos hj, hj, hl]
      · rw [if_neg hj]
  | none =>
      simp only [read, hl]
      exact current?_insert t l ⟨t.next, []⟩ _ _ j

theorem isCurrent_read : (t.read l).1.IsCurrent (t.read l).2 := by
  have hc := current?_read t l l
  rw [if_pos rfl] at hc
  rw [isCurrent_iff, location_of_current? hc, hc]

theorem location_read : (t.read l).2.location = l := by
  have hc := current?_read t l l
  rw [if_pos rfl] at hc
  exact location_of_current? hc

@[simp] theorem dependents_read (j : Location) :
    (t.read l).1.dependents j = t.dependents j := by
  cases hl : t.current? l with
  | some v => rw [read_eq_of_tracked hl]
  | none =>
      simp only [read, hl]
      rw [dependents_insert]
      by_cases hj : j = l
      · rw [if_pos hj, hj, dependents_of_untracked hl]
      · rw [if_neg hj]

@[simp] theorem table_read : (t.read l).1.table = t.table := by
  unfold read
  cases t.current? l <;> rfl

/-! ### Invalidating -/

theorem invalidate?_eq_none_iff : t.invalidate? l = none ↔ t.current? l = none := by
  simp [invalidate?, current?]

/-- A write to a tracked location makes the next number current, and hands over all dependents. -/
theorem invalidate?_spec {t t' : Versions} {l : Location} {i : Invalidation}
    (ht : t.invalidate? l = some (t', i)) :
    t.current? l = some i.stale ∧ i.fresh = t.next ∧ i.dependents = t.dependents l ∧
      t'.table = t.table ∧ t'.next = t.next + 1 ∧
      (∀ j, t'.current? j = if j = l then some ⟨t.table, l, t.next⟩ else t.current? j) ∧
      ∀ j, t'.dependents j = if j = l then [] else t.dependents j := by
  obtain ⟨s, hs, he⟩ := Option.map_eq_some_iff.1 ht
  obtain ⟨rfl, rfl⟩ := Prod.mk.inj he
  refine ⟨by simp [current?, hs], rfl, by simp [dependents, hs], rfl, rfl, ?_, ?_⟩
  · exact fun j => current?_insert t l ⟨t.next, []⟩ _ _ j
  · exact fun j => dependents_insert t l ⟨t.next, []⟩ _ _ j

/-! ### Registering and unregistering -/

/-- Two tables of the same versions. They may differ in the dependents. -/
structure SameVersions (t t' : Versions) : Prop where
  table : t'.table = t.table
  next : t'.next = t.next
  current : ∀ j, t'.current? j = t.current? j

namespace SameVersions

variable {t t' t'' : Versions}

theorem refl (t : Versions) : SameVersions t t := ⟨rfl, rfl, fun _ => rfl⟩

theorem trans (h : SameVersions t t') (h' : SameVersions t' t'') : SameVersions t t'' :=
  ⟨h'.table.trans h.table, h'.next.trans h.next, fun j => (h'.current j).trans (h.current j)⟩

theorem isCurrent_iff (h : SameVersions t t') (v : Version) :
    t'.IsCurrent v ↔ t.IsCurrent v := by
  rw [Versions.isCurrent_iff, Versions.isCurrent_iff, h.current]

end SameVersions

theorem sameVersions_modify (f : Slot → Slot) (hf : ∀ s, (f s).current = s.current) :
    SameVersions t { t with slots := t.slots.modify l f } := by
  refine ⟨rfl, rfl, fun j => ?_⟩
  simp only [current?, FinMap.find?_modify]
  by_cases hj : j = l
  · cases t.slots.find? j <;> simp [hj, hf]
  · rw [if_neg hj]

theorem dependents_modify (f : Slot → Slot) (j : Location) :
    dependents { t with slots := t.slots.modify l f } j =
      if j = l then ((t.slots.find? l).map fun s => (f s).dependents).getD []
      else t.dependents j := by
  simp only [dependents, FinMap.find?_modify]
  by_cases hj : j = l
  · subst hj
    simp [Function.comp_def]
  · simp [hj]

theorem register?_eq_none_iff : t.register? v h = none ↔ ¬ t.IsCurrent v := by
  unfold register?
  split_ifs with hc <;> simp [hc]

theorem register?_spec {t t' : Versions} {v : Version} {h : Handle}
    (ht : t.register? v h = some t') :
    t.IsCurrent v ∧ SameVersions t t' ∧
      (∀ j d, d ∈ t'.dependents j ↔ d ∈ t.dependents j ∨ d = h ∧ j = v.location) ∧
      ((∀ j, (t.dependents j).Nodup) → ∀ j, (t'.dependents j).Nodup) := by
  unfold register? at ht
  split_ifs at ht with hc
  obtain rfl := Option.some.inj ht
  obtain ⟨s, hs, -⟩ := Option.map_eq_some_iff.1 hc
  have hdep : t.dependents v.location = s.dependents := by simp [dependents, hs]
  refine ⟨hc, sameVersions_modify t _ _ fun s => ?_, fun j d => ?_, fun hn j => ?_⟩
  · unfold Slot.add
    split_ifs <;> rfl
  · rw [dependents_modify]
    by_cases hj : j = v.location
    · simp [hj, hs, hdep, Slot.mem_add]
    · simp [hj]
  · rw [dependents_modify]
    split_ifs with hj
    · have hns := hn v.location
      rw [hdep] at hns
      simpa [hs] using Slot.nodup_add h hns
    · exact hn j

theorem dependents_register? {t t' : Versions} {v : Version} {h : Handle}
    (ht : t.register? v h = some t') (hh : h ∉ t.dependents v.location) (j : Location) :
    t'.dependents j = if j = v.location then t.dependents j ++ [h] else t.dependents j := by
  unfold register? at ht
  split_ifs at ht with hc
  obtain rfl := Option.some.inj ht
  obtain ⟨s, hs, -⟩ := Option.map_eq_some_iff.1 hc
  have hdep : t.dependents v.location = s.dependents := by simp [dependents, hs]
  rw [dependents_modify]
  by_cases hj : j = v.location
  · rw [hdep] at hh
    simp [hj, hs, hdep, Slot.add, hh]
  · simp [hj]

theorem unregister?_perm {t t' : Versions} {v : Version} {h : Handle}
    (ht : t.unregister? v h = some t') :
    SameVersions t t' ∧ ∀ j, (t'.dependents j).Perm
      (if j = v.location then (t.dependents j).erase h else t.dependents j) := by
  unfold unregister? at ht
  split_ifs at ht with hm
  obtain rfl := Option.some.inj ht
  refine ⟨sameVersions_modify t _ _ fun s => ?_, fun j => ?_⟩
  · unfold Slot.drop
    cases s.dependents.getLast? <;> rfl
  · rw [dependents_modify]
    split_ifs with hj
    · subst hj
      cases hs : t.slots.find? v.location with
      | none => simp [dependents, hs] at hm
      | some s =>
          have hdep : t.dependents v.location = s.dependents := by simp [dependents, hs]
          rw [hdep] at hm ⊢
          simpa using Slot.drop_perm s hm
    · exact List.Perm.refl _

theorem unregister?_getD {t : Versions} (hn : ∀ j, (t.dependents j).Nodup) :
    SameVersions t ((t.unregister? v h).getD t) ∧
      (∀ j d, d ∈ ((t.unregister? v h).getD t).dependents j ↔
        d ∈ t.dependents j ∧ ¬ (d = h ∧ j = v.location)) ∧
      ∀ j, (((t.unregister? v h).getD t).dependents j).Nodup := by
  cases ht : t.unregister? v h with
  | none =>
      have hm : h ∉ t.dependents v.location := by
        intro hm
        simp [unregister?, hm] at ht
      refine ⟨SameVersions.refl t, fun j d => ⟨fun hd => ⟨hd, ?_⟩, fun hd => hd.1⟩, hn⟩
      rintro ⟨rfl, rfl⟩
      exact hm hd
  | some t' =>
      obtain ⟨hs, hp⟩ := unregister?_perm ht
      refine ⟨hs, fun j d => ?_, fun j => ?_⟩
      · rw [Option.getD_some, (hp j).mem_iff]
        split_ifs with hj
        · rw [(hn j).mem_erase_iff]
          simp [hj, and_comm]
        · simp [hj]
      · rw [Option.getD_some, (hp j).nodup_iff]
        split_ifs
        · exact (hn j).erase h
        · exact hn j

/-- Releasing takes `h` out of the dependents of all the locations, and nothing else. -/
theorem release_spec (vs : List Version) {t : Versions} (hn : ∀ j, (t.dependents j).Nodup) :
    SameVersions t (t.release h vs) ∧
      (∀ j d, d ∈ (t.release h vs).dependents j ↔
        d ∈ t.dependents j ∧ ¬ (d = h ∧ ∃ v ∈ vs, v.location = j)) ∧
      ∀ j, ((t.release h vs).dependents j).Nodup := by
  induction vs generalizing t with
  | nil => exact ⟨SameVersions.refl t, fun j d => by simp [release], hn⟩
  | cons v vs ih =>
      obtain ⟨hs, hm, hn'⟩ := unregister?_getD v h hn
      obtain ⟨hs', hm', hn''⟩ := ih hn'
      refine ⟨hs.trans hs', fun j d => ?_, hn''⟩
      change d ∈ (((t.unregister? v h).getD t).release h vs).dependents j ↔ _
      rw [hm', hm]
      simp only [List.mem_cons, exists_eq_or_imp, eq_comm (a := j), and_or_left, not_or, and_assoc]

/-- Registering on several versions stops at the first stale one, and the versions before it keep
the new dependent. -/
theorem registerAll_spec (vs : List Version) (t : Versions) :
    SameVersions t (t.registerAll h vs).1 ∧
      (t.registerAll h vs).2 = (match vs.find? fun v => decide (¬ t.IsCurrent v) with
        | none => .ok ()
        | some v => .error v.location) ∧
      (∀ j d, d ∈ (t.registerAll h vs).1.dependents j ↔ d ∈ t.dependents j ∨
        d = h ∧ ∃ v ∈ vs.takeWhile fun v => decide (t.IsCurrent v), v.location = j) ∧
      ((∀ j, (t.dependents j).Nodup) → ∀ j, ((t.registerAll h vs).1.dependents j).Nodup) := by
  induction vs generalizing t with
  | nil => exact ⟨SameVersions.refl t, rfl, fun j d => by simp [registerAll], fun hn => hn⟩
  | cons v vs ih =>
      cases ht : t.register? v h with
      | none =>
          have hc := (register?_eq_none_iff t v h).1 ht
          simp only [registerAll, ht]
          refine ⟨SameVersions.refl t, ?_, fun j d => ?_, fun hn => hn⟩
          · simp [hc]
          · simp [hc]
      | some t' =>
          obtain ⟨hc, hs, hm, hn⟩ := register?_spec ht
          obtain ⟨hs', hr, hm', hn'⟩ := ih t'
          simp only [hs.isCurrent_iff] at hr hm'
          simp only [registerAll, ht]
          refine ⟨hs.trans hs', ?_, fun j d => ?_, fun hd => hn' (hn hd)⟩
          · rw [hr]
            simp [hc]
          · rw [hm', hm]
            simp only [List.takeWhile_cons, hc, decide_true, if_true, List.mem_cons,
              exists_eq_or_imp, eq_comm (a := j)]
            tauto

/-- A handle that is new to the locations stands last among the dependents of those before the
first stale version, and the other dependents are as before. -/
theorem dependents_registerAll (vs : List Version) {t : Versions}
    (hn : (vs.map Version.location).Nodup) (hh : ∀ v ∈ vs, h ∉ t.dependents v.location)
    (j : Location) :
    (t.registerAll h vs).1.dependents j =
      if j ∈ (vs.takeWhile fun v => decide (t.IsCurrent v)).map Version.location
      then t.dependents j ++ [h] else t.dependents j := by
  induction vs generalizing t with
  | nil => simp [registerAll]
  | cons v vs ih =>
      obtain ⟨hv, hn⟩ := List.nodup_cons.1 hn
      cases ht : t.register? v h with
      | none =>
          have hc := (register?_eq_none_iff t v h).1 ht
          simp [registerAll, ht, hc]
      | some t' =>
          obtain ⟨hc, hs, -, -⟩ := register?_spec ht
          have hd := dependents_register? ht (hh v List.mem_cons_self)
          have hh' : ∀ u ∈ vs, h ∉ t'.dependents u.location := by
            intro u hu
            have hne : u.location ≠ v.location := fun he => hv (he ▸ List.mem_map_of_mem hu)
            rw [hd, if_neg hne]
            exact hh u (List.mem_cons_of_mem _ hu)
          have hi := ih hn hh'
          simp only [hs.isCurrent_iff] at hi
          simp only [registerAll, ht, List.takeWhile_cons, hc, decide_true, if_true, List.map_cons,
            List.mem_cons]
          rw [hi, hd]
          by_cases hj : j = v.location
          · have hm : v.location ∉ (vs.takeWhile fun v => decide (t.IsCurrent v)).map
                Version.location := fun hm =>
              hv (((List.takeWhile_sublist _).map _).subset hm)
            rw [hj, if_neg hm, if_pos rfl, if_pos (Or.inl rfl)]
          · simp [hj]

/-! ## Issued versions -/

def Issued (t : Versions) (v : Version) : Prop :=
  v.table = t.table ∧ ∃ u, t.current? v.location = some u ∧ v.id ≤ u.id

structure Sound (t : Versions) : Prop where
  id_lt : ∀ l v, t.current? l = some v → v.id < t.next
  nodup : ∀ l, (t.dependents l).Nodup

variable {t : Versions} {l : Location} {v : Version}

theorem eq_of_current? {u : Version} (hv : t.current? l = some v) (ht : u.table = t.table)
    (hl : u.location = l) (hi : u.id = v.id) : u = v := by
  have hvt := table_of_current? hv
  have hvl := location_of_current? hv
  cases u
  cases v
  simp_all

theorem issued_of_isCurrent (hv : t.IsCurrent v) : t.Issued v :=
  ⟨table_of_current? hv, v, hv, le_rfl⟩

theorem Issued.isCurrent_iff {u : Version} (hv : t.Issued v) (hu : t.current? v.location = some u) :
    t.IsCurrent v ↔ v.id = u.id := by
  constructor
  · intro hc
    rw [Versions.isCurrent_iff, hu] at hc
    rw [Option.some.inj hc]
  · intro hi
    have he := eq_of_current? hu hv.1 rfl hi
    rw [Versions.isCurrent_iff, hu, he]

theorem SameVersions.issued_iff {t' : Versions} (h : SameVersions t t') (v : Version) :
    t'.Issued v ↔ t.Issued v := by
  unfold Issued
  rw [h.table, h.current]

theorem Sound.of_sameVersions {t' : Versions} (ht : t.Sound) (h : SameVersions t t')
    (hn : ∀ l, (t'.dependents l).Nodup) : t'.Sound where
  id_lt := fun l v hv => by
    rw [h.current] at hv
    rw [h.next]
    exact ht.id_lt l v hv
  nodup := hn

theorem sound_empty (n : Nat) : Sound { table := n } where
  id_lt := fun l v hv => by cases hv
  nodup := fun l => List.nodup_nil

/-! ### Issued versions under reading -/

theorem current?_read_of_tracked {j : Location} {u : Version} (hu : t.current? j = some u)
    (l : Location) : (t.read l).1.current? j = some u := by
  rw [current?_read]
  split_ifs with hj
  · subst hj
    rw [read_eq_of_tracked hu]
  · exact hu

theorem Issued.read (hv : t.Issued v) (l : Location) : (t.read l).1.Issued v := by
  obtain ⟨ht, u, hu, hle⟩ := hv
  exact ⟨ht.trans (table_read t l).symm, u, current?_read_of_tracked hu l, hle⟩

theorem Issued.isCurrent_read_iff (hv : t.Issued v) (l : Location) :
    (t.read l).1.IsCurrent v ↔ t.IsCurrent v := by
  obtain ⟨-, u, hu, -⟩ := hv
  rw [Versions.isCurrent_iff, Versions.isCurrent_iff, current?_read_of_tracked hu, hu]

theorem Sound.read (ht : t.Sound) (l : Location) : (t.read l).1.Sound where
  id_lt := fun j v hv => by
    cases hl : t.current? l with
    | some u =>
        rw [read_eq_of_tracked hl] at hv ⊢
        exact ht.id_lt j v hv
    | none =>
        simp only [Versions.read, hl] at hv ⊢
        rw [current?_insert] at hv
        split_ifs at hv with hj
        · obtain rfl := Option.some.inj hv
          exact Nat.lt_succ_self _
        · exact (ht.id_lt j v hv).trans (Nat.lt_succ_self _)
  nodup := fun j => by
    rw [dependents_read]
    exact ht.nodup j

/-! ### Issued versions under invalidation -/

theorem Sound.invalidate (ht : t.Sound) {t' : Versions} {i : Invalidation}
    (h : t.invalidate? l = some (t', i)) : t'.Sound := by
  obtain ⟨-, -, -, -, hn, hc, hd⟩ := invalidate?_spec h
  constructor
  case id_lt =>
    intro j v hv
    rw [hc] at hv
    rw [hn]
    split_ifs at hv with hj
    · obtain rfl := Option.some.inj hv
      exact Nat.lt_succ_self _
    · exact (ht.id_lt j v hv).trans (Nat.lt_succ_self _)
  case nodup =>
    intro j
    rw [hd]
    split_ifs
    · exact List.nodup_nil
    · exact ht.nodup j

theorem Issued.invalidate (hv : t.Issued v) (ht : t.Sound) {t' : Versions} {i : Invalidation}
    (h : t.invalidate? l = some (t', i)) : t'.Issued v := by
  obtain ⟨-, -, -, htab, -, hc, -⟩ := invalidate?_spec h
  obtain ⟨hvt, u, hu, hle⟩ := hv
  refine ⟨hvt.trans htab.symm, ?_⟩
  rw [hc]
  split_ifs with hj
  · exact ⟨_, rfl, hle.trans (ht.id_lt _ u hu).le⟩
  · exact ⟨u, hu, hle⟩

/-- A write to its location makes an issued version stale, and a write elsewhere leaves it as
it is. -/
theorem Issued.isCurrent_invalidate_iff (hv : t.Issued v) (ht : t.Sound) {t' : Versions}
    {i : Invalidation} (h : t.invalidate? l = some (t', i)) :
    t'.IsCurrent v ↔ t.IsCurrent v ∧ v.location ≠ l := by
  obtain ⟨-, -, -, -, -, hc, -⟩ := invalidate?_spec h
  rw [Versions.isCurrent_iff, Versions.isCurrent_iff, hc]
  split_ifs with hj
  · obtain ⟨-, u, hu, hle⟩ := hv
    have hlt := ht.id_lt _ u hu
    constructor
    · intro he
      have hid : t.next = v.id := congrArg Version.id (Option.some.inj he)
      omega
    · intro he
      exact absurd hj he.2
  · exact ⟨fun hu => ⟨hu, hj⟩, fun hu => hu.1⟩

end Versions

end HotLoop
