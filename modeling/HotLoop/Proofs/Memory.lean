import HotLoop.Proofs.Heap
import HotLoop.Proofs.Occurrence

/-!
# What a guard on the heap is worth

A guard trusts the value that its location has when it is captured. It holds until the first write
to the location that succeeds, whatever value that stores, and from then on it never holds again. So
a guard that holds vouches for the value, among all writes to other locations, failed writes,
allocations and captures.
-/

namespace HotLoop

structure Memory where
  heap : Heap := {}
  versions : Versions := {}

namespace Memory

inductive Step where
  | alloc (c : ObjectClass) (values : List (String × Int))
  | set (l : Location) (value : Int)
  /-- Captures a guard on a location, which is its version. -/
  | capture (l : Location)

/-- The effect of a step. One that fails changes nothing. -/
def step (m : Memory) : Step → Memory
  | .alloc c values =>
    match m.heap.alloc c values with
    | .ok (h, _) => { m with heap := h }
    | .error _ => m
  | .set l value =>
    match m.heap.set m.versions l value with
    | .ok (h, t, _) => ⟨h, t⟩
    | .error _ => m
  | .capture l => { m with versions := (m.versions.read l).1 }

def run (table : Nat) (steps : List Step) : Memory :=
  steps.foldl step { versions := { table := table } }

/-- The step stores a value, be it the old one, at the location. -/
def Writes (l : Location) (m : Memory) (s : Step) : Prop :=
  ∃ value after, s = .set l value ∧ m.heap.set m.versions l value = .ok after

/-- Everything that a step can do, and which location it writes. -/
theorem step_cases (m : Memory) (s : Step) :
    (m.step s = m ∧ ∀ l, ¬ m.Writes l s) ∨
      (∃ c values h id, m.heap.alloc c values = .ok (h, id) ∧ m.step s = { m with heap := h } ∧
        ∀ l, ¬ m.Writes l s) ∨
      (∃ j value h t i, m.heap.set m.versions j value = .ok (h, t, i) ∧ m.step s = ⟨h, t⟩ ∧
        ∀ l, m.Writes l s ↔ l = j) ∨
      ∃ j, m.step s = { m with versions := (m.versions.read j).1 } ∧ ∀ l, ¬ m.Writes l s := by
  cases s with
  | alloc c values =>
      have hw : ∀ l, ¬ m.Writes l (.alloc c values) := by
        rintro l ⟨value, after, hs, -⟩
        cases hs
      cases ha : m.heap.alloc c values with
      | error e => exact Or.inl ⟨by simp only [step, ha], hw⟩
      | ok p => exact Or.inr (Or.inl ⟨c, values, p.1, p.2, ha, by simp only [step, ha], hw⟩)
  | set j value =>
      cases hs : m.heap.set m.versions j value with
      | error e =>
          refine Or.inl ⟨by simp only [step, hs], ?_⟩
          rintro l ⟨value', after, he, hw⟩
          cases he
          rw [hs] at hw
          cases hw
      | ok p =>
          refine Or.inr (Or.inr (Or.inl ⟨j, value, p.1, p.2.1, p.2.2, hs,
            by simp only [step, hs], fun l => ⟨?_, ?_⟩⟩))
          · rintro ⟨value', after, he, -⟩
            cases he
            rfl
          · rintro rfl
            exact ⟨value, p, rfl, hs⟩
  | capture j =>
      refine Or.inr (Or.inr (Or.inr ⟨j, rfl, ?_⟩))
      rintro l ⟨value, after, hs, -⟩
      cases hs

theorem sound_step {m : Memory} (hm : m.versions.Sound) (s : Step) : (m.step s).versions.Sound := by
  rcases step_cases m s with ⟨he, -⟩ | ⟨c, values, h, id, -, he, -⟩ |
      ⟨j, value, h, t, i, hs, he, -⟩ | ⟨j, he, -⟩ <;> rw [he]
  · exact hm
  · exact hm
  · exact Heap.sound_set hm hs
  · exact hm.read j

theorem sound_foldl {m : Memory} (hm : m.versions.Sound) (steps : List Step) :
    (steps.foldl step m).versions.Sound := by
  induction steps generalizing m with
  | nil => exact hm
  | cons s steps ih => exact ih (sound_step hm s)

theorem sound_run (table : Nat) (steps : List Step) : (run table steps).versions.Sound :=
  sound_foldl (Versions.sound_empty table) steps

structure Guarded (m : Memory) (v : Version) : Prop where
  sound : m.versions.Sound
  issued : m.versions.Issued v
  quasi : m.heap.isQuasi v.location = .ok true

/-- What happens to the version `v`, and to the value of its location, from `m` to `m'`, if the
location is written on the way or not. -/
structure Carries (m m' : Memory) (v : Version) (written : Prop) : Prop where
  guarded : m'.Guarded v
  isCurrent_iff : m'.versions.IsCurrent v ↔ m.versions.IsCurrent v ∧ ¬ written
  get : ∀ x, ¬ written → m.heap.get v.location = .ok x → m'.heap.get v.location = .ok x

variable {m : Memory} {v : Version}

theorem Guarded.step (hm : m.Guarded v) (s : Step) :
    m.Carries (m.step s) v (m.Writes v.location s) := by
  rcases step_cases m s with ⟨he, hw⟩ | ⟨c, values, h, id, ha, he, hw⟩ |
      ⟨j, value, h, t, i, hs, he, hw⟩ | ⟨j, he, hw⟩ <;> rw [he]
  · exact ⟨hm, (and_iff_left (hw _)).symm, fun _ _ hx => hx⟩
  · exact ⟨⟨hm.sound, hm.issued, Heap.isQuasi_alloc ha hm.quasi⟩, (and_iff_left (hw _)).symm,
      fun x _ hx => Heap.get_alloc ha hx⟩
  · rw [hw]
    have hq : h.isQuasi v.location = .ok true := by
      rw [Heap.isQuasi_set hs]
      exact hm.quasi
    refine ⟨⟨Heap.sound_set hm.sound hs, Heap.issued_set hm.sound hs hm.issued, hq⟩,
      Heap.isCurrent_set_iff hm.sound hs hm.issued hm.quasi, fun x hne hx => ?_⟩
    rw [Heap.get_set hs, if_neg hne]
    exact hx
  · refine ⟨⟨hm.sound.read j, hm.issued.read j, hm.quasi⟩, ?_, fun x _ hx => hx⟩
    rw [and_iff_left (hw _)]
    exact hm.issued.isCurrent_read_iff j

/-- Along a run, a version stays current until its location is written, and so long the value stays
the same. -/
theorem Guarded.foldl (hm : m.Guarded v) (steps : List Step) :
    m.Carries (steps.foldl Memory.step m) v (Occurs Memory.step (Writes v.location) m steps) := by
  induction steps generalizing m with
  | nil => exact ⟨hm, (and_iff_left id).symm, fun _ _ hx => hx⟩
  | cons s steps ih =>
      have hs := hm.step s
      have hr := ih hs.guarded
      refine ⟨hr.guarded, ?_, fun x hw hx => ?_⟩
      · rw [List.foldl_cons, hr.isCurrent_iff, hs.isCurrent_iff, Occurs, not_or, and_assoc]
      · rw [Occurs, not_or] at hw
        exact hr.get x hw.2 (hs.get x hw.1 hx)

/-- A guard on a quasi-immutable location, captured at any moment of a run: whenever it holds later,
the location has the value that it had then, and from the first successful write on, and only from
then on, it never holds again. -/
theorem guard_vouches (table : Nat) (past : List Step) (l : Location)
    (hq : (run table past).heap.isQuasi l = .ok true) :
    let guard := ((run table past).versions.read l).2
    let captured := (run table past).step (.capture l)
    ∃ x, (run table past).heap.get l = .ok x ∧
      (∀ later : List Step, (later.foldl step captured).versions.IsCurrent guard →
        (later.foldl step captured).heap.get l = .ok x) ∧
      ∀ later : List Step, Occurs step (Writes l) captured later ↔
        ∀ more : List Step, ¬ ((later ++ more).foldl step captured).versions.IsCurrent guard := by
  intro guard captured
  have hl : guard.location = l := Versions.location_read _ l
  have hcur : captured.versions.IsCurrent guard := Versions.isCurrent_read _ l
  have hg : captured.Guarded guard :=
    ⟨(sound_run table past).read l, Versions.issued_of_isCurrent hcur, hl.symm ▸ hq⟩
  have hiff : ∀ later : List Step, (later.foldl step captured).versions.IsCurrent guard ↔
      ¬ Occurs step (Writes l) captured later := by
    intro later
    rw [(hg.foldl later).isCurrent_iff, and_iff_right hcur, hl]
  obtain ⟨x, hx⟩ := Heap.exists_get_of_isQuasi hq
  refine ⟨x, hx, fun later hc => ?_, fun later => ⟨fun hw more => ?_, fun hn => ?_⟩⟩
  · have hget := (hg.foldl later).get x
    rw [hl] at hget
    exact hget ((hiff later).1 hc) hx
  · rw [hiff, not_not]
    exact occurs_append.2 (Or.inl hw)
  · have hnow := hn []
    rwa [List.append_nil, hiff, not_not] at hnow

def counter : ObjectClass where
  name := "Counter"
  fields := ["step"]
  declared := ⟨FinMap.empty.insert "step" Field.Flags.quasiImmutable⟩
  declared_fields := by decide

def step0 : Location := ⟨⟨0⟩, "step"⟩

/-- Writing a value over itself makes the guard stale for ever. -/
theorem guard_vouches_rewritten :
    let m := run 0 [.alloc counter [("step", 7)]]
    m.heap.isQuasi step0 = .ok true ∧ m.heap.get step0 = .ok 7 ∧
      ∀ more, ¬ (([.set step0 7] ++ more).foldl step (m.step (.capture step0))).versions.IsCurrent
        (m.versions.read step0).2 := by
  have hq : (run 0 [.alloc counter [("step", 7)]]).heap.isQuasi step0 = .ok true := by decide
  obtain ⟨x, hx, -, hw⟩ := guard_vouches 0 [.alloc counter [("step", 7)]] step0 hq
  exact ⟨hq, by decide, (hw [.set step0 7]).1 (Or.inl ⟨7, _, rfl, rfl⟩)⟩

end Memory

end HotLoop
