import HotLoop.Code.Artifact
import HotLoop.Shapes

/-!
# The code cache

The cache holds the live artifacts, at most one loop for each site, together with the versions that
they depend on. Artifacts are entered only while their guards hold, and they are never repaired:
a failed guard or a revoked version retires them, and a loop takes its bridges with it.
-/

namespace HotLoop.Code

open Trace

structure Cache where
  versions : Versions := {}
  /-- The number of the next handle. -/
  next : Nat := 1
  loops : FinMap Site Handle := ∅
  artifacts : FinMap Handle Artifact := ∅
  retiredCount : Nat := 0

/-- A loop that was installed, and what it replaced. -/
structure LoopInstall where
  handle : Handle
  replaced : List Handle

inductive EntryCheck where
  | entered
  /-- The location of the first guard that does not hold, and what was retired for it. -/
  | guardFailed (l : Location) (retired : List Handle)
  /-- There is no such live artifact. -/
  | dead

namespace Cache

def get? (c : Cache) (h : Handle) : Option Artifact := c.artifacts.find? h

def isLive (c : Cache) (h : Handle) : Bool := c.artifacts.contains h

def liveCount (c : Cache) : Nat := c.artifacts.size

def loop? (c : Cache) (s : Site) : Option Handle := c.loops.find? s

/-- The live bridge behind a guard of `parent`. -/
def bridge? (c : Cache) (parent : Handle) (failIndex : Nat) : Option Handle := do
  let a ← c.get? parent
  let b ← a.bridges.find? failIndex
  if c.isLive b then some b else none

/-! ## Retiring -/

/-- Drops the artifact `a` of the handle `h`, and takes `h` out of the dependents of all that `a`
guards. -/
def remove (c : Cache) (h : Handle) (a : Artifact) : Cache :=
  { c with
    artifacts := c.artifacts.erase h
    versions := c.versions.release h a.guards.captured }

/-- Drops the live ones among the handles, and lists them. -/
def removeAll (c : Cache) : List Handle → Cache × List Handle
  | [] => (c, [])
  | h :: hs =>
    match c.get? h with
    | none => c.removeAll hs
    | some a =>
      let (c, removed) := (c.remove h a).removeAll hs
      (c, h :: removed)

/-- Retires an artifact, a loop with its bridges, and lists what went from live to retired. -/
def retire (c : Cache) (h : Handle) : Cache × List Handle :=
  match c.get? h with
  | none => (c, [])
  | some a =>
    let c := c.remove h a
    match a.kind with
    | .loop =>
      let c := if c.loops.find? a.site = some h then { c with loops := c.loops.erase a.site } else c
      let (c, bridges) := c.removeAll a.bridges.values
      ({ c with retiredCount := c.retiredCount + (bridges.length + 1) }, h :: bridges)
    | .bridge parent failIndex =>
      ({ c with
          artifacts := c.artifacts.modify parent fun p => p.detach failIndex h
          retiredCount := c.retiredCount + 1 },
        [h])

/-- Retires the artifacts in turn. -/
def retireAll (c : Cache) : List Handle → Cache × List Handle
  | [] => (c, [])
  | h :: hs =>
    let (c, first) := c.retire h
    let (c, rest) := c.retireAll hs
    (c, first ++ rest)

/-- Retires what depended on a revoked version. -/
def apply (c : Cache) (i : Invalidation) : Cache × List Handle := c.retireAll i.dependents

/-! ## Installing -/

/-- Takes the next handle and makes it depend on the guarded versions. The handle is used up, and
the versions before the first stale one stay registered, also if there is a stale one. -/
def register (c : Cache) (g : Guards) : Cache × Except Location Handle :=
  let h : Handle := ⟨c.next⟩
  let (versions, result) := c.versions.registerAll h g.captured
  ({ c with versions := versions, next := c.next + 1 }, result.map fun _ => h)

/-- Installs a loop and retires the one that it replaces, or gives the location of a stale guard. -/
def addLoop (c : Cache) (s : Site) (g : Guards) (ops : List Op) :
    Cache × Except Location LoopInstall :=
  match c.register g with
  | (c, .error l) => (c, .error l)
  | (c, .ok h) =>
    let (c, replaced) := match c.loop? s with
      | some old => c.retire old
      | none => (c, [])
    ({ c with
        loops := c.loops.insert s h
        artifacts := c.artifacts.insert h
          { handle := h, kind := .loop, site := s, guards := g, operations := ops } },
      .ok ⟨h, replaced⟩)

/-- Attaches a bridge for the site `s` to a guard of the loop `parent`, or gives the location of a
stale guard. -/
def addBridge (c : Cache) (parent : Handle) (s : Site) (failIndex : Nat) (g : Guards)
    (ops : List Op) : Cache × Except Location Handle :=
  match c.register g with
  | (c, .error l) => (c, .error l)
  | (c, .ok h) =>
    let a : Artifact :=
      { handle := h, kind := .bridge parent failIndex, site := s, guards := g, operations := ops }
    ({ c with artifacts := (c.artifacts.modify parent fun p => p.attach failIndex h).insert h a },
      .ok h)

/-- Installs a loop under a key of the right shape. -/
def installLoop (e : EntryPoint) (k : Key) (g : Guards) (ops : List Op) :
    EStateM Fault (Shapes × Cache) (Except Location LoopInstall) := do
  Shapes.checkKey e k
  modifyGet fun s =>
    let (c, result) := s.2.addLoop (e.site k) g ops
    (result, (s.1, c))

/-- Attaches a bridge to a live loop; nothing else can carry one. -/
def installBridge (parent : Handle) (failIndex : Nat) (g : Guards) (ops : List Op) :
    EStateM Fault Cache (Except Location Handle) := fun c =>
  match c.get? parent with
  | none => .error (.notLiveLoop parent) c
  | some p =>
    if p.IsLoop then
      let (c, result) := c.addBridge parent p.site failIndex g ops
      .ok result c
    else .error (.notLiveLoop parent) c

/-! ## Entering -/

/-- Enters an artifact whose guards all hold, and retires one with a failing guard. -/
def enter (c : Cache) (h : Handle) : Cache × EntryCheck :=
  match c.get? h with
  | none => (c, .dead)
  | some a =>
    match a.guards.firstStale? c.versions with
    | none => ({ c with artifacts := c.artifacts.modify h Artifact.entered }, .entered)
    | some v =>
      let (c, retired) := c.retire h
      (c, .guardFailed v.location retired)

end Cache

end HotLoop.Code
