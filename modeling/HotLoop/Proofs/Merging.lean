import HotLoop.Command.Session
import HotLoop.Proofs.Counts
import Mathlib.Algebra.BigOperators.Group.List.Basic
import Mathlib.Algebra.Group.Basic

/-!
# Merging tallies

Tallies form a commutative monoid: `a + b` has under each counter what the two have there together,
and counts a cause if one of them does. Merging computes this sum as long as every number in it has
64 bits. Where it has not, the merge stops at the first counter that is too large and leaves the
counters behind it as they were.
-/

namespace HotLoop.Lifecycle

open Trace

namespace AbortCounts

theorem nodup_causes (c : AbortCounts) : (c.entries.map Prod.fst).Nodup := by
  rw [List.nodup_iff_pairwise_ne, List.pairwise_map]
  refine c.sorted.imp fun hab he => ?_
  rw [he] at hab
  exact Nat.lt_irrefl _ hab

theorem mem_entries_iff (c : AbortCounts) (a : Abort) (n : Nat) :
    (a, n) ∈ c.entries ↔ c.entries.lookup a = some n :=
  FinMap.mem_entries_iff ⟨c.entries, c.nodup_causes⟩ a n

/-- The counts are sorted, so they are told by what is counted under each cause. -/
theorem ext_lookup {c d : AbortCounts} (h : ∀ a, c.entries.lookup a = d.entries.lookup a) :
    c = d := by
  have hmem : ∀ e, e ∈ c.entries ↔ e ∈ d.entries := by
    intro e
    rw [mem_entries_iff c e.1 e.2, mem_entries_iff d e.1 e.2, h]
  have hperm : c.entries.Perm d.entries :=
    (List.perm_ext_iff_of_nodup (List.Nodup.of_map _ c.nodup_causes)
      (List.Nodup.of_map _ d.nodup_causes)).2 hmem
  have he : c.entries = d.entries :=
    hperm.eq_of_pairwise (fun a b _ _ hab hba => absurd hba (Nat.lt_asymm hab)) c.sorted d.sorted
  cases c
  cases d
  cases he
  rfl

theorem lookup_insertSorted (c : AbortCounts) (a b : Abort) (n : Nat) :
    (c.add a n).entries.lookup b = if b = a then some (c.count a + n) else c.entries.lookup b := by
  split_ifs with hb
  · rw [hb]
    exact lookup_insertSorted_self a n c.sorted
  · exact lookup_insertSorted_of_ne hb n c.entries

end AbortCounts

namespace Tally

variable {a b c t : Tally} {k : Counter} {n : Nat}

/-! ## What is under a counter -/

def number? (t : Tally) : Counter → Option Nat
  | .aborts a => t.aborts.entries.lookup a
  | k => some (t.get k)

theorem get_eq (t : Tally) (k : Counter) : t.get k = (t.number? k).getD 0 := by
  cases k <;> rfl

theorem number?_add (t : Tally) (n : Nat) (k j : Counter) :
    (t.add n k).number? j = if j = k then some (t.get k + n) else t.number? j := by
  cases k with
  | aborts a =>
      cases j with
      | aborts b =>
          simp only [number?, add, Counter.aborts.injEq, AbortCounts.lookup_insertSorted]
          rfl
      | _ => rfl
  | _ => cases j <;> rfl

theorem ext_number? (h : ∀ k, a.number? k = b.number? k) : a = b := by
  have haborts : a.aborts = b.aborts := AbortCounts.ext_lookup fun cause => h (.aborts cause)
  have hl := Option.some.inj (h .loopsCompiled)
  have hb := Option.some.inj (h .bridgesCompiled)
  have hl' := Option.some.inj (h .loopsRetired)
  have hb' := Option.some.inj (h .bridgesRetired)
  cases a
  cases b
  simp only [get] at haborts hl hb hl' hb'
  subst haborts hl hb hl' hb'
  rfl

/-! ## The order in which counters are merged -/

namespace Counter

def stage : Counter → Nat
  | .aborts _ => 0
  | .loopsCompiled => 1
  | .bridgesCompiled => 2
  | .loopsRetired => 3
  | .bridgesRetired => 4

def Before : Counter → Counter → Prop
  | .aborts a, .aborts b => a < b
  | j, k => j.stage < k.stage

theorem Before.asymm {j k : Counter} (h : j.Before k) : ¬ k.Before j := by
  cases j with
  | aborts a =>
      cases k with
      | aborts b => exact Nat.lt_asymm h
      | _ => exact Nat.lt_asymm h
  | _ => cases k <;> exact Nat.lt_asymm h

theorem not_before_self (k : Counter) : ¬ k.Before k := fun h => h.asymm h

end Counter

theorem pairwise_counters (t : Tally) : t.counters.Pairwise fun e f => e.1.Before f.1 := by
  unfold counters
  rw [List.pairwise_append, List.pairwise_map]
  refine ⟨t.aborts.sorted, by simp [Counter.Before, Counter.stage], ?_⟩
  intro e he f hf
  obtain ⟨x, -, rfl⟩ := List.mem_map.1 he
  simp only [List.mem_cons, List.not_mem_nil, or_false] at hf
  rcases hf with rfl | rfl | rfl | rfl <;> simp [Counter.Before, Counter.stage]

theorem nodup_counters (t : Tally) : (t.counters.map Prod.fst).Nodup := by
  rw [List.nodup_iff_pairwise_ne, List.pairwise_map]
  refine t.pairwise_counters.imp fun hef he => ?_
  rw [he] at hef
  exact Counter.not_before_self _ hef

theorem mem_counters_iff (t : Tally) (k : Counter) (n : Nat) :
    (k, n) ∈ t.counters ↔ t.number? k = some n := by
  unfold counters
  rw [List.mem_append]
  cases k with
  | aborts a =>
      rw [number?, ← AbortCounts.mem_entries_iff]
      simp
  | _ => simp [number?, get, eq_comm]

theorem lookup_counters (t : Tally) (k : Counter) : t.counters.lookup k = t.number? k := by
  refine Option.ext fun n => ?_
  rw [← mem_counters_iff]
  exact (FinMap.mem_entries_iff ⟨t.counters, t.nodup_counters⟩ k n).symm

/-! ## Sums -/

theorem lookup_eq_none_of_not_mem {l : List (Counter × Nat)} (h : k ∉ l.map Prod.fst) :
    l.lookup k = none := by
  refine List.lookup_eq_none_iff.2 fun e he => ?_
  have hne : k ≠ e.1 := fun hk => h (hk ▸ List.mem_map_of_mem he)
  simpa using hne

/-- Adds all these numbers, however large they become. -/
def plus (t : Tally) (l : List (Counter × Nat)) : Tally := l.foldl (fun t e => t.add e.2 e.1) t

theorem number?_plus {l : List (Counter × Nat)} (hl : (l.map Prod.fst).Nodup) (t : Tally)
    (k : Counter) : (t.plus l).number? k = (t.number? k).merge (· + ·) (l.lookup k) := by
  induction l generalizing t with
  | nil => exact Option.merge_none_right.symm
  | cons e l ih =>
      obtain ⟨j, n⟩ := e
      obtain ⟨hj, hl⟩ := List.nodup_cons.1 hl
      refine (ih hl (t.add n j)).trans ?_
      rw [number?_add, List.lookup_cons]
      by_cases hk : k = j
      · subst hk
        rw [if_pos rfl, lookup_eq_none_of_not_mem hj, Option.merge_none_right, get_eq]
        cases t.number? k <;> simp
      · rw [if_neg hk, beq_false_of_ne hk]

instance : Add Tally := ⟨fun a b => a.plus b.counters⟩

instance : Zero Tally := ⟨{}⟩

theorem number?_sum (a b : Tally) (k : Counter) :
    (a + b).number? k = (a.number? k).merge (· + ·) (b.number? k) := by
  rw [← lookup_counters b]
  exact number?_plus b.nodup_counters a k

theorem get_sum (a b : Tally) (k : Counter) : (a + b).get k = a.get k + b.get k := by
  rw [get_eq, get_eq, get_eq, number?_sum]
  cases a.number? k <;> cases b.number? k <;> simp

theorem get_zero (k : Counter) : (0 : Tally).get k = 0 := by
  cases k <;> rfl

theorem zero_sum (a : Tally) : 0 + a = a := by
  refine ext_number? fun k => ?_
  rw [number?_sum]
  cases k with
  | aborts cause => exact Option.merge_none_left
  | _ => exact congrArg some (Nat.zero_add _)

/-- Tallies are added like the numbers in them, and the empty one is nothing. -/
instance : AddCommMonoid Tally where
  add_assoc a b c := ext_number? fun k => by
    simp only [number?_sum]
    exact Std.Associative.assoc _ _ _
  add_comm a b := ext_number? fun k => by
    simp only [number?_sum]
    exact Std.Commutative.comm _ _
  zero_add := zero_sum
  add_zero a := ext_number? fun k => by
    rw [number?_sum]
    cases k with
    | aborts cause => exact Option.merge_none_right
    | _ => exact congrArg some (Nat.add_zero _)
  nsmul := nsmulRec

theorem total_plus (t : Tally) (l : List (Abort × Nat)) :
    (t.plus (l.map fun e => (.aborts e.1, e.2))).aborts.total =
      t.aborts.total + (l.map Prod.snd).sum := by
  induction l generalizing t with
  | nil => rfl
  | cons e l ih =>
      refine (ih (t.add e.2 (.aborts e.1))).trans ?_
      rw [List.map_cons, List.sum_cons, ← Nat.add_assoc]
      exact congrArg (· + _) (AbortCounts.total_add t.aborts e.1 e.2)

theorem total_sum (a b : Tally) : (a + b).aborts.total = a.aborts.total + b.aborts.total := by
  have hsplit : a + b = (a.plus (b.aborts.entries.map fun e => (.aborts e.1, e.2))).plus
      [(.loopsCompiled, b.loopsCompiled), (.bridgesCompiled, b.bridgesCompiled),
       (.loopsRetired, b.loopsRetired), (.bridgesRetired, b.bridgesRetired)] := List.foldl_append
  rw [AbortCounts.total_eq_sum b.aborts, ← total_plus a b.aborts.entries, hsplit]
  rfl

/-! ## Merging -/

def Fits (t : Tally) : Prop := ∀ e ∈ t.counters, e.2 < 0x10000000000000000

instance (t : Tally) : Decidable t.Fits :=
  inferInstanceAs (Decidable (∀ e ∈ t.counters, e.2 < 0x10000000000000000))

theorem fits_iff : t.Fits ↔ ∀ k, t.get k < 0x10000000000000000 := by
  constructor
  · intro h k
    rw [get_eq]
    cases hk : t.number? k with
    | none => exact Nat.zero_lt_succ _
    | some n => exact h (k, n) ((mem_counters_iff t k n).2 hk)
  · intro h e he
    have hk := h e.1
    rwa [get_eq, (mem_counters_iff t e.1 e.2).1 he] at hk

theorem get_plus_of_not_mem {l : List (Counter × Nat)} (hk : k ∉ l.map Prod.fst) (t : Tally) :
    (t.plus l).get k = t.get k := by
  induction l generalizing t with
  | nil => rfl
  | cons e l ih =>
      obtain ⟨he, hk⟩ := not_or.1 (mt List.mem_cons.2 hk)
      refine (ih hk (t.add e.2 e.1)).trans ?_
      rw [get_add, if_neg he, Nat.add_zero]

/-- Numbers that fit are added, and the rest follows. -/
theorem addAll_append {l rest : List (Counter × Nat)} (hl : (l.map Prod.fst).Nodup)
    (h : ∀ e ∈ l, t.get e.1 + e.2 < 0x10000000000000000) :
    t.addAll (l ++ rest) = (t.plus l).addAll rest := by
  induction l generalizing t with
  | nil => rfl
  | cons e l ih =>
      obtain ⟨he, hl⟩ := List.nodup_cons.1 hl
      obtain ⟨hfit, h⟩ := List.forall_mem_cons.1 h
      rw [List.cons_append, addAll, if_pos hfit]
      refine ih hl fun f hf => ?_
      have hne : f.1 ≠ e.1 := fun heq => he (heq ▸ List.mem_map_of_mem hf)
      rw [get_add, if_neg hne, Nat.add_zero]
      exact h f hf

theorem fits_sum_iff (ha : a.Fits) :
    (a + b).Fits ↔ ∀ e ∈ b.counters, a.get e.1 + e.2 < 0x10000000000000000 := by
  rw [fits_iff]
  constructor
  · intro h e he
    have hk := h e.1
    rwa [get_sum, get_eq b, (mem_counters_iff b e.1 e.2).1 he] at hk
  · intro h k
    rw [get_sum, get_eq b]
    cases hk : b.number? k with
    | none => exact fits_iff.1 ha k
    | some n => exact h (k, n) ((mem_counters_iff b k n).2 hk)

theorem Fits.of_sum (h : (a + b).Fits) : a.Fits := by
  refine fits_iff.2 fun k => ?_
  have hk := fits_iff.1 h k
  rw [get_sum] at hk
  omega

theorem fits_zero : (0 : Tally).Fits :=
  fits_iff.2 fun k => by
    rw [get_zero]
    exact Nat.zero_lt_succ _

theorem merge_of_fits (h : (a + b).Fits) : a.merge b = (a + b, .ok ()) := by
  have hmerge : a.addAll (b.counters ++ []) = (a.plus b.counters).addAll [] :=
    addAll_append b.nodup_counters ((fits_sum_iff h.of_sum).1 h)
  rw [List.append_nil] at hmerge
  exact hmerge

/-- The merge ends at the first counter that is too large. -/
theorem merge_of_not_fits (ha : a.Fits) (h : ¬ (a + b).Fits) :
    ∃ before k n after, b.counters = before ++ (k, n) :: after ∧
      (∀ e ∈ before, a.get e.1 + e.2 < 0x10000000000000000) ∧
      0x10000000000000000 ≤ a.get k + n ∧ a.merge b = (a.plus before, .error .addOverflow) := by
  cases hfind : b.counters.find? fun e => decide (0x10000000000000000 ≤ a.get e.1 + e.2) with
  | none =>
      refine absurd ((fits_sum_iff ha).2 fun e he => ?_) h
      exact Nat.not_le.1 (by simpa using List.find?_eq_none.1 hfind e he)
  | some e =>
      obtain ⟨hlarge, before, after, hsplit, hfit⟩ := List.find?_eq_some_iff_append.1 hfind
      have hlarge : 0x10000000000000000 ≤ a.get e.1 + e.2 := of_decide_eq_true hlarge
      have hfit : ∀ f ∈ before, a.get f.1 + f.2 < 0x10000000000000000 := fun f hf =>
        Nat.not_le.1 (by simpa using hfit f hf)
      have hnodup := b.nodup_counters
      rw [hsplit, List.map_append, List.nodup_append] at hnodup
      have hnew : e.1 ∉ before.map Prod.fst := fun hm =>
        hnodup.2.2 _ hm _ List.mem_cons_self rfl
      refine ⟨before, e.1, e.2, after, hsplit, hfit, hlarge, ?_⟩
      rw [merge, hsplit, addAll_append hnodup.1 hfit, addAll, get_plus_of_not_mem hnew,
        if_neg (Nat.not_lt.2 hlarge)]

/-- What is added before a counter is the entries of the counters before it. -/
theorem lookup_before {before after : List (Counter × Nat)}
    (h : b.counters = before ++ (k, n) :: after) (j : Counter) :
    (j.Before k → before.lookup j = b.number? j) ∧ (¬ j.Before k → before.lookup j = none) := by
  have hsorted := b.pairwise_counters
  rw [h, List.pairwise_append] at hsorted
  obtain ⟨-, hrest, hbefore⟩ := hsorted
  constructor
  · intro hj
    have hnone : List.lookup j ((k, n) :: after) = none := by
      refine lookup_eq_none_of_not_mem fun hm => ?_
      obtain ⟨e, he, rfl⟩ := List.mem_map.1 hm
      rcases List.mem_cons.1 he with rfl | he
      · exact Counter.not_before_self _ hj
      · exact hj.asymm ((List.pairwise_cons.1 hrest).1 e he)
    rw [← lookup_counters, h, List.lookup_append, hnone, Option.or_none]
  · intro hj
    refine lookup_eq_none_of_not_mem fun hm => ?_
    obtain ⟨e, he, rfl⟩ := List.mem_map.1 hm
    exact hj (hbefore e he (k, n) List.mem_cons_self)

/-! ## Merging many -/

/-- Merges the tallies in turn, unless a number becomes too large. -/
def mergeAll (t : Tally) (ts : List Tally) : Except Fault Tally :=
  ts.foldlM (fun total t =>
    match total.merge t with
    | (total, .ok ()) => .ok total
    | (_, .error f) => .error f) t

theorem tally_eq_mergeAll (s : Command.Session) :
    s.tally = mergeAll {} (s.tracers.map fun t => t.monitor.ledger.tally) := by
  rw [mergeAll, List.foldlM_map]
  rfl

theorem mergeAll_eq (ht : t.Fits) (ts : List Tally) :
    mergeAll t ts = if (t + ts.sum).Fits then .ok (t + ts.sum) else .error .addOverflow := by
  induction ts generalizing t with
  | nil =>
      rw [List.sum_nil, add_zero, if_pos ht]
      rfl
  | cons u ts ih =>
      rw [List.sum_cons, ← add_assoc, mergeAll, List.foldlM_cons]
      by_cases hu : (t + u).Fits
      · rw [merge_of_fits hu]
        exact ih hu
      · obtain ⟨_, _, _, _, -, -, -, hm⟩ := merge_of_not_fits ht hu
        rw [hm, if_neg fun h => hu h.of_sum]
        rfl

theorem get_listSum (ts : List Tally) (k : Counter) :
    ts.sum.get k = (ts.map fun t => t.get k).sum := by
  induction ts with
  | nil => exact get_zero k
  | cons t ts ih => rw [List.sum_cons, get_sum, ih, List.map_cons, List.sum_cons]

theorem totalAborts_eq_ok_iff :
    t.totalAborts = .ok n ↔ t.aborts.total = n ∧ n < 0x10000000000000000 := by
  unfold totalAborts
  split_ifs with h
  · rw [Except.ok.injEq]
    constructor
    · rintro rfl
      exact ⟨rfl, h⟩
    · exact fun h => h.1
  · constructor
    · intro he
      cases he
    · rintro ⟨rfl, hn⟩
      exact absurd hn h

theorem total_listSum {ts : List Tally} {ns : List Nat}
    (h : List.Forall₂ (fun t n => t.totalAborts = .ok n) ts ns) :
    ts.sum.aborts.total = ns.sum := by
  induction h with
  | nil => rfl
  | cons ht _ ih =>
      rw [List.sum_cons, List.sum_cons, total_sum, ih, (totalAborts_eq_ok_iff.1 ht).1]

/-- What merging `b` into `a` comes to. -/
structure Merged (a b : Tally) (r : Tally × Except Fault Unit) : Prop where
  fails_iff : r.2 = .error .addOverflow ↔ ∃ k, 0x10000000000000000 ≤ a.get k + b.get k
  /-- A merge that does not fail adds what is under the counters. A cause is counted behind it just
  if it was counted in one of the two. -/
  adds (h : ∀ k, a.get k + b.get k < 0x10000000000000000) : r.2 = .ok () ∧
    (∀ k, r.1.number? k = (a.number? k).merge (· + ·) (b.number? k)) ∧
      ∀ k, r.1.get k = a.get k + b.get k
  total (h : ∀ k, a.get k + b.get k < 0x10000000000000000) (m n : Nat)
    (hm : a.totalAborts = .ok m) (hn : b.totalAborts = .ok n)
    (hmn : m + n < 0x10000000000000000) : r.1.totalAborts = .ok (m + n)
  /-- A merge that fails has done the additions before the first one that is too large. -/
  stops (h : r.2 ≠ .ok ()) : ∃ k, 0x10000000000000000 ≤ a.get k + b.get k ∧ ∀ j : Counter,
    (j.Before k → a.get j + b.get j < 0x10000000000000000 ∧
      r.1.number? j = (a.number? j).merge (· + ·) (b.number? j)) ∧
    (¬ j.Before k → r.1.number? j = a.number? j)

/-- What merging all of `ts` comes to, whatever their order is. -/
structure MergedAll (ts : List Tally) : Prop where
  succeeds_iff : (∃ r, mergeAll {} ts = .ok r) ↔
    ∀ k, (ts.map fun t => t.get k).sum < 0x10000000000000000
  perm (us : List Tally) (h : us.Perm ts) : mergeAll {} us = mergeAll {} ts
  adds (r : Tally) (h : mergeAll {} ts = .ok r) (k : Counter) :
    r.get k = (ts.map fun t => t.get k).sum
  total (r : Tally) (h : mergeAll {} ts = .ok r) (ns : List Nat)
    (hns : List.Forall₂ (fun t n => t.totalAborts = .ok n) ts ns)
    (hfit : ns.sum < 0x10000000000000000) : r.totalAborts = .ok ns.sum

theorem fits_sum_iff_get :
    (a + b).Fits ↔ ∀ k, a.get k + b.get k < 0x10000000000000000 := by
  simp only [fits_iff, get_sum]

theorem merged_of_fits (h : (a + b).Fits) : Merged a b (a.merge b) := by
  have hk := fits_sum_iff_get.1 h
  rw [merge_of_fits h]
  refine ⟨?_, fun _ => ⟨rfl, number?_sum a b, get_sum a b⟩, ?_, fun hne => absurd rfl hne⟩
  · constructor
    · intro he
      cases he
    · rintro ⟨k, hlarge⟩
      exact absurd (hk k) (Nat.not_lt.2 hlarge)
  · intro _ m n hm hn hmn
    refine totalAborts_eq_ok_iff.2 ⟨?_, hmn⟩
    rw [total_sum, (totalAborts_eq_ok_iff.1 hm).1, (totalAborts_eq_ok_iff.1 hn).1]

theorem merged_of_not_fits (ha : a.Fits) (h : ¬ (a + b).Fits) : Merged a b (a.merge b) := by
  obtain ⟨before, k, n, after, hsplit, hfit, hlarge, hm⟩ := merge_of_not_fits ha h
  have hk : b.number? k = some n := by
    rw [← mem_counters_iff, hsplit]
    exact List.mem_append_right _ List.mem_cons_self
  have hlarge : 0x10000000000000000 ≤ a.get k + b.get k := by
    rwa [get_eq b, hk]
  have hnodup : (before.map Prod.fst).Nodup := by
    have hall := b.nodup_counters
    rw [hsplit, List.map_append, List.nodup_append] at hall
    exact hall.1
  have hadded : ∀ j : Counter, j.Before k → a.get j + b.get j < 0x10000000000000000 := by
    intro j hj
    have hlookup := (lookup_before hsplit j).1 hj
    rw [get_eq b]
    cases hb : b.number? j with
    | none => exact fits_iff.1 ha j
    | some m =>
        rw [hb] at hlookup
        exact hfit (j, m) ((FinMap.mem_entries_iff ⟨before, hnodup⟩ j m).2 hlookup)
  rw [hm]
  refine ⟨⟨fun _ => ⟨k, hlarge⟩, fun _ => rfl⟩, fun hall => ?_, fun hall => ?_, fun _ =>
    ⟨k, hlarge, fun j => ⟨fun hj => ⟨hadded j hj, ?_⟩, fun hj => ?_⟩⟩⟩
  · exact absurd (fits_sum_iff_get.2 hall) h
  · exact absurd (fits_sum_iff_get.2 hall) h
  · rw [number?_plus hnodup, (lookup_before hsplit j).1 hj]
  · rw [number?_plus hnodup, (lookup_before hsplit j).2 hj, Option.merge_none_right]

theorem merged_merge (ha : a.Fits) (b : Tally) : Merged a b (a.merge b) := by
  by_cases h : (a + b).Fits
  · exact merged_of_fits h
  · exact merged_of_not_fits ha h

theorem mergedAll (ts : List Tally) : MergedAll ts := by
  have heq : ∀ us, mergeAll {} us =
      if us.sum.Fits then .ok us.sum else .error .addOverflow := by
    intro us
    have h := mergeAll_eq fits_zero us
    rwa [zero_sum] at h
  have hok : ∀ r, mergeAll {} ts = .ok r → ts.sum = r := by
    intro r h
    rw [heq] at h
    split_ifs at h
    exact Except.ok.inj h
  refine ⟨?_, fun us h => ?_, fun r h k => ?_, fun r h ns hns hfit => ?_⟩
  · have hfits : (∃ r, mergeAll {} ts = .ok r) ↔ ts.sum.Fits := by
      rw [heq]
      split_ifs with h <;> simp [h]
    rw [hfits, fits_iff]
    simp only [get_listSum]
  · rw [heq, heq, h.sum_eq]
  · rw [← hok r h, get_listSum]
  · refine totalAborts_eq_ok_iff.2 ⟨?_, hfit⟩
    rw [← hok r h, total_listSum hns]

/-- Merging is addition, in whatever order it is done. -/
theorem merge_adds {a : Tally} (ha : a.Fits) (b c : Tally) :
    Merged a b (a.merge b) ∧ a.merge {} = (a, .ok ()) ∧ ({} : Tally).merge a = (a, .ok ()) ∧
      ((∀ k, a.get k + b.get k < 0x10000000000000000) → b.merge a = a.merge b) ∧
      ((∀ k, a.get k + b.get k + c.get k < 0x10000000000000000) → ∃ ab bc abc,
        a.merge b = (ab, .ok ()) ∧ ab.merge c = (abc, .ok ()) ∧
          b.merge c = (bc, .ok ()) ∧ a.merge bc = (abc, .ok ())) ∧
      (∀ ts, MergedAll ts) ∧ ∀ s : Command.Session,
        s.tally = mergeAll {} (s.tracers.map fun t => t.monitor.ledger.tally) := by
  have hright : a + 0 = a := add_zero a
  have hleft : 0 + a = a := zero_sum a
  refine ⟨merged_merge ha b, ?_, ?_, fun hab => ?_, fun habc => ?_, mergedAll, tally_eq_mergeAll⟩
  · have h : (a + 0).Fits := hright.symm ▸ ha
    exact (merge_of_fits h).trans (by rw [hright])
  · have h : (0 + a).Fits := hleft.symm ▸ ha
    exact (merge_of_fits h).trans (by rw [hleft])
  · have h : (a + b).Fits := fits_sum_iff_get.2 hab
    have hcomm : b + a = a + b := AddCommMonoid.add_comm b a
    rw [merge_of_fits h, merge_of_fits (hcomm.symm ▸ h), hcomm]
  · have h : (a + b + c).Fits := by
      refine fits_sum_iff_get.2 fun k => ?_
      rw [get_sum]
      exact habc k
    have hassoc : a + (b + c) = a + b + c := (add_assoc a b c).symm
    have hbc : (b + c).Fits := by
      refine fits_sum_iff_get.2 fun k => ?_
      have hk := habc k
      omega
    exact ⟨a + b, b + c, a + b + c, merge_of_fits h.of_sum, merge_of_fits h, merge_of_fits hbc,
      hassoc ▸ merge_of_fits (hassoc.symm ▸ h)⟩

/-- The causes have been added when the number of loops turns out too large, and the bridges are not
added any more. -/
theorem merge_adds_loops :
    let a : Tally :=
      { aborts := AbortCounts.empty.add .bridge 3, loopsCompiled := 0xFFFFFFFFFFFFFFFF }
    let b : Tally :=
      { aborts := (AbortCounts.empty.add (.custom 7) 1).add .bridge 2
        loopsCompiled := 1
        bridgesRetired := 5 }
    a.Fits ∧ (a.merge b).2 = .error .addOverflow ∧
      (a.merge b).1.number? (.aborts .bridge) = some 5 ∧
        (a.merge b).1.number? (.aborts (.custom 7)) = some 1 ∧
          (a.merge b).1.number? .bridgesRetired = some 0 := by
  intro a b
  have ha : a.Fits := by decide
  obtain ⟨hmerged, -⟩ := merge_adds ha b b
  exact ⟨ha, hmerged.fails_iff.2 ⟨.loopsCompiled, by decide⟩, by decide, by decide, by decide⟩

end Tally

end HotLoop.Lifecycle
