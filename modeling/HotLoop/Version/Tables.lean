import HotLoop.Version.Guards

/-!
# Several version tables

Versions of different tables are never equal, and whatever is asked of a version concerns its own
table.
-/

namespace HotLoop

/-- Tables that are numbered by their position. -/
structure Tables where
  all : List Versions

namespace Tables

def ofCount (n : Nat) : Tables := ⟨(List.range n).map fun i => { table := i }⟩

def get? (ts : Tables) (i : Nat) : Option Versions := ts.all[i]?

def put (ts : Tables) (i : Nat) (t : Versions) : Tables := ⟨ts.all.set i t⟩

def IsCurrent (ts : Tables) (v : Version) : Prop := ∃ t ∈ ts.get? v.table, t.IsCurrent v

instance (ts : Tables) (v : Version) : Decidable (ts.IsCurrent v) :=
  match h : ts.get? v.table with
  | none => isFalse (by simp [IsCurrent, h])
  | some t => decidable_of_iff (t.IsCurrent v) (by simp [IsCurrent, h])

def register? (ts : Tables) (v : Version) (h : Handle) : Option Tables := do
  let t ← ts.get? v.table
  let t ← t.register? v h
  some (ts.put v.table t)

def unregister? (ts : Tables) (v : Version) (h : Handle) : Option Tables := do
  let t ← ts.get? v.table
  let t ← t.unregister? v h
  some (ts.put v.table t)

/-- Registers `h` on each of the versions, and says which were not stale. -/
def registerEach (ts : Tables) (h : Handle) : List Version → Tables × List Bool
  | [] => (ts, [])
  | v :: vs =>
    match ts.register? v h with
    | some ts =>
      let (ts, accepted) := ts.registerEach h vs
      (ts, true :: accepted)
    | none =>
      let (ts, accepted) := ts.registerEach h vs
      (ts, false :: accepted)

/-- Takes `h` out of the dependents of all the versions. -/
def release (ts : Tables) (h : Handle) (vs : List Version) : Tables :=
  vs.foldl (fun ts v => (ts.unregister? v h).getD ts) ts

def firstStale? (ts : Tables) (g : Guards) : Option Version :=
  g.captured.find? fun v => decide (¬ ts.IsCurrent v)

end Tables

end HotLoop
