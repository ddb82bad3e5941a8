import HotLoop.FinMap
import HotLoop.Handle
import HotLoop.Location

/-!
# Versions of locations

A version is a token that trusts the value of a location until its next write. The table gives each
location that was ever read a slot with the number of its current version and the artifacts that
depend on it. Numbers come from one counter, so a version that was revoked never becomes current
again. `register?` and `unregister?` return the changed table, or `none` if they change nothing.
-/

namespace HotLoop

structure Version where
  table : Nat
  location : Location
  id : Nat
  deriving DecidableEq

instance : ToString Version where
  toString v := toString v.location ++ "@v" ++ toString v.id

namespace Versions

structure Slot where
  current : Nat
  dependents : List Handle

namespace Slot

def add (s : Slot) (h : Handle) : Slot :=
  if h ∈ s.dependents then s else { s with dependents := s.dependents ++ [h] }

/-- Takes `h` out of the dependents. The last of them moves into the gap. -/
def drop (s : Slot) (h : Handle) : Slot :=
  match s.dependents.getLast? with
  | none => s
  | some last => { s with dependents := s.dependents.dropLast.replace h last }

end Slot

end Versions

structure Versions where
  /-- Tells this table from others. -/
  table : Nat := 0
  slots : FinMap Location Versions.Slot := ∅
  next : Nat := 1
  invalidations : Nat := 0

/-- What a write to a tracked location revoked. -/
structure Invalidation where
  stale : Version
  fresh : Nat
  dependents : List Handle

namespace Versions

def current? (t : Versions) (l : Location) : Option Version :=
  (t.slots.find? l).map fun s => ⟨t.table, l, s.current⟩

def IsCurrent (t : Versions) (v : Version) : Prop := t.current? v.location = some v

instance (t : Versions) (v : Version) : Decidable (t.IsCurrent v) :=
  inferInstanceAs (Decidable (t.current? v.location = some v))

def dependents (t : Versions) (l : Location) : List Handle :=
  ((t.slots.find? l).map Slot.dependents).getD []

def tracked (t : Versions) : Nat := t.slots.size

def allocated (t : Versions) : Nat := t.next - 1

/-- The current version of `l`. The first reading gives `l` a slot. -/
def read (t : Versions) (l : Location) : Versions × Version :=
  match t.current? l with
  | some v => (t, v)
  | none =>
    ({ t with slots := t.slots.insert l ⟨t.next, []⟩, next := t.next + 1 }, ⟨t.table, l, t.next⟩)

/-- Replaces the current version of `l` and hands over its dependents. A location that was never
read has nothing to revoke. -/
def invalidate? (t : Versions) (l : Location) : Option (Versions × Invalidation) :=
  (t.slots.find? l).map fun s =>
    ({ t with
        slots := t.slots.insert l ⟨t.next, []⟩
        next := t.next + 1
        invalidations := t.invalidations + 1 },
      ⟨⟨t.table, l, s.current⟩, t.next, s.dependents⟩)

/-- Makes `h` depend on `v`, unless `v` is stale. -/
def register? (t : Versions) (v : Version) (h : Handle) : Option Versions :=
  if t.IsCurrent v then some { t with slots := t.slots.modify v.location (Slot.add · h) } else none

/-- Takes `h` out of the dependents of the location of `v`, if it is among them. -/
def unregister? (t : Versions) (v : Version) (h : Handle) : Option Versions :=
  if h ∈ t.dependents v.location then
    some { t with slots := t.slots.modify v.location (Slot.drop · h) }
  else none

/-- Registers `h` on the versions in turn, and stops at the first stale one. -/
def registerAll (t : Versions) (h : Handle) : List Version → Versions × Except Location Unit
  | [] => (t, .ok ())
  | v :: vs =>
    match t.register? v h with
    | some t => t.registerAll h vs
    | none => (t, .error v.location)

/-- Takes `h` out of the dependents of all the versions. -/
def release (t : Versions) (h : Handle) (vs : List Version) : Versions :=
  vs.foldl (fun t v => (t.unregister? v h).getD t) t

end Versions

end HotLoop
