import HotLoop.Fault
import HotLoop.Trace.Abort

/-!
# Tallies

A tally counts aborts by cause, and loops and bridges compiled and retired. Tallies are merged
counter by counter in a fixed order; a sum beyond 64 bits stops there and keeps the sums made.
-/

namespace HotLoop.Lifecycle

open Trace

/-- Counts by cause, in the order of the causes. -/
structure AbortCounts where
  entries : List (Abort × Nat)
  sorted : entries.Pairwise fun a b => a.1 < b.1

namespace AbortCounts

def empty : AbortCounts := ⟨[], List.Pairwise.nil⟩

/-- Adds `n` to the count of `a`, which enters the list if it is not there. -/
def insertSorted (a : Abort) (n : Nat) : List (Abort × Nat) → List (Abort × Nat)
  | [] => [(a, n)]
  | (b, m) :: l =>
    if a < b then (a, n) :: (b, m) :: l
    else if a = b then (b, m + n) :: l
    else (b, m) :: insertSorted a n l

theorem fst_mem_insertSorted {a : Abort} {n : Nat} {l : List (Abort × Nat)} {e : Abort × Nat}
    (h : e ∈ insertSorted a n l) : e.1 = a ∨ ∃ f ∈ l, f.1 = e.1 := by
  induction l with
  | nil =>
    simp only [insertSorted, List.mem_singleton] at h
    exact Or.inl (h ▸ rfl)
  | cons f l ih =>
    obtain ⟨b, m⟩ := f
    simp only [insertSorted] at h
    split at h
    · rcases List.mem_cons.1 h with rfl | h
      · exact Or.inl rfl
      · exact Or.inr ⟨e, h, rfl⟩
    · split at h
      · rcases List.mem_cons.1 h with rfl | h
        · exact Or.inr ⟨(b, m), List.mem_cons_self, rfl⟩
        · exact Or.inr ⟨e, List.mem_cons_of_mem _ h, rfl⟩
      · rcases List.mem_cons.1 h with rfl | h
        · exact Or.inr ⟨(b, m), List.mem_cons_self, rfl⟩
        · rcases ih h with h | ⟨f, hf, he⟩
          · exact Or.inl h
          · exact Or.inr ⟨f, List.mem_cons_of_mem _ hf, he⟩

theorem pairwise_insertSorted (a : Abort) (n : Nat) {l : List (Abort × Nat)}
    (h : l.Pairwise fun a b => a.1 < b.1) : (insertSorted a n l).Pairwise fun a b => a.1 < b.1 := by
  induction l with
  | nil => simp [insertSorted]
  | cons f l ih =>
    obtain ⟨b, m⟩ := f
    obtain ⟨hb, hl⟩ := List.pairwise_cons.1 h
    simp only [insertSorted]
    split
    · rename_i hab
      refine List.pairwise_cons.2 ⟨fun e he => ?_, h⟩
      rcases List.mem_cons.1 he with rfl | he
      · exact hab
      · exact Nat.lt_trans hab (hb e he)
    · split
      · exact List.pairwise_cons.2 ⟨hb, hl⟩
      · rename_i hab hne
        refine List.pairwise_cons.2 ⟨fun e he => ?_, ih hl⟩
        rcases fst_mem_insertSorted he with h | ⟨f, hf, hfe⟩
        · have hba : b.rank ≠ a.rank := fun h => hne (Abort.rank_injective h.symm)
          have hle : ¬ a.rank < b.rank := hab
          change b.rank < e.1.rank
          rw [h]
          omega
        · change b.rank < e.1.rank
          rw [← hfe]
          exact hb f hf

def add (c : AbortCounts) (a : Abort) (n : Nat) : AbortCounts where
  entries := insertSorted a n c.entries
  sorted := pairwise_insertSorted a n c.sorted

def count (c : AbortCounts) (a : Abort) : Nat := (c.entries.lookup a).getD 0

def total (c : AbortCounts) : Nat := c.entries.foldl (fun n e => n + e.2) 0

end AbortCounts

structure Tally where
  aborts : AbortCounts := .empty
  loopsCompiled : Nat := 0
  bridgesCompiled : Nat := 0
  loopsRetired : Nat := 0
  bridgesRetired : Nat := 0

namespace Tally

/-- One of the numbers that a tally keeps. -/
inductive Counter where
  | aborts (cause : Abort)
  | loopsCompiled
  | bridgesCompiled
  | loopsRetired
  | bridgesRetired
  deriving DecidableEq

def get (t : Tally) : Counter → Nat
  | .aborts a => t.aborts.count a
  | .loopsCompiled => t.loopsCompiled
  | .bridgesCompiled => t.bridgesCompiled
  | .loopsRetired => t.loopsRetired
  | .bridgesRetired => t.bridgesRetired

def add (t : Tally) (n : Nat) : Counter → Tally
  | .aborts a => { t with aborts := t.aborts.add a n }
  | .loopsCompiled => { t with loopsCompiled := t.loopsCompiled + n }
  | .bridgesCompiled => { t with bridgesCompiled := t.bridgesCompiled + n }
  | .loopsRetired => { t with loopsRetired := t.loopsRetired + n }
  | .bridgesRetired => { t with bridgesRetired := t.bridgesRetired + n }

/-- All counters of a tally, in the order in which they are merged. -/
def counters (t : Tally) : List (Counter × Nat) :=
  t.aborts.entries.map (fun e => (.aborts e.1, e.2)) ++
    [(.loopsCompiled, t.loopsCompiled), (.bridgesCompiled, t.bridgesCompiled),
     (.loopsRetired, t.loopsRetired), (.bridgesRetired, t.bridgesRetired)]

/-- Adds in turn, and stops before the first sum beyond 64 bits. -/
def addAll (t : Tally) : List (Counter × Nat) → Tally × Except Fault Unit
  | [] => (t, .ok ())
  | (c, n) :: rest =>
    if t.get c + n < 0x10000000000000000 then (t.add n c).addAll rest else (t, .error .addOverflow)

def merge (t other : Tally) : Tally × Except Fault Unit := t.addAll other.counters

/-- The aborts of all causes, unless their number is beyond 64 bits. -/
def totalAborts (t : Tally) : Except Fault Nat :=
  if t.aborts.total < 0x10000000000000000 then .ok t.aborts.total else .error .addOverflow

def summary (t : Tally) : Except Fault String := do
  let total ← t.totalAborts
  let causes := t.aborts.entries.map fun e => toString e.1 ++ "=" ++ toString e.2
  let list := if causes = [] then "" else " (" ++ ", ".intercalate causes ++ ")"
  return "=== JIT Portal Summary ===\n"
    ++ "Loops: " ++ toString t.loopsCompiled ++ " compiled, " ++ toString t.loopsRetired
    ++ " retired\n"
    ++ "Bridges: " ++ toString t.bridgesCompiled ++ " compiled, " ++ toString t.bridgesRetired
    ++ " retired\n"
    ++ "Aborts: " ++ toString total ++ list ++ "\n"

end Tally

end HotLoop.Lifecycle
