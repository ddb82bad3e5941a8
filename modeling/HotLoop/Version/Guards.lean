import HotLoop.Version.Table

/-!
# Guards

A guard is a captured version; it holds as long as the version is current. The guards of an artifact
are on distinct locations, and the earliest capture of a location counts.
-/

namespace HotLoop

structure Guards where
  captured : List Version
  nodup_locations : (captured.map Version.location).Nodup

namespace Guards

def empty : Guards := ⟨[], List.nodup_nil⟩

instance : EmptyCollection Guards := ⟨empty⟩

def Covers (g : Guards) (l : Location) : Prop := l ∈ g.captured.map Version.location

instance (g : Guards) (l : Location) : Decidable (g.Covers l) :=
  inferInstanceAs (Decidable (l ∈ g.captured.map Version.location))

/-- Adds a guard at the end, unless its location is covered. -/
def push? (g : Guards) (v : Version) : Option Guards :=
  if h : g.Covers v.location then none
  else some
    { captured := g.captured ++ [v]
      nodup_locations := by
        rw [List.map_append, List.nodup_append]
        refine ⟨g.nodup_locations, by simp, ?_⟩
        rintro l hl m hm rfl
        obtain rfl := List.mem_singleton.1 hm
        exact h hl }

def ofList (vs : List Version) : Guards := vs.foldl (fun g v => (g.push? v).getD g) ∅

/-- The first guard whose version is stale. -/
def firstStale? (g : Guards) (t : Versions) : Option Version :=
  g.captured.find? fun v => decide (¬ t.IsCurrent v)

end Guards

end HotLoop
