import HotLoop.Proofs.Counts

/-!
# What became of each artifact

An artifact that was installed is live until it is retired, and then it is reported once: as
replaced by another loop, by an entry check that failed, by a retirement that was asked for, or by a
revocation. `Custody` is what the clients of a fresh cache have been told so far. Nothing is assumed
of the version table or of the shapes of keys: each request may find them in any state.
-/

namespace HotLoop.Code

open Trace

inductive Request where
  | installLoop (e : EntryPoint) (k : Key) (g : Guards) (ops : List Op)
  | installBridge (parent : Handle) (failIndex : Nat) (g : Guards) (ops : List Op)
  | enter (h : Handle)
  | retire (h : Handle)
  | apply (i : Invalidation)

/-- A request, with the versions and the shapes that it meets. -/
structure Visit where
  versions : Versions
  shapes : Shapes
  request : Request

structure Custody where
  cache : Cache := {}
  /-- The handles that installations took, the refused ones included. -/
  allocated : List Handle := []
  installed : List Handle := []
  reported : List Handle := []

namespace Cache

variable {c : Cache}

/-! ## Installing -/

structure Takes (c c' : Cache) (new gone : List Handle) : Prop where
  handles : (c.handles ++ new).Perm (c'.handles ++ gone)
  retiredCount : c'.retiredCount = c.retiredCount + gone.length
  next : c'.next = c.next + 1

/-- Registering uses up a handle and leaves the artifacts to what comes behind it. -/
theorem Exchanges.takes {c' : Cache} {g : Guards} {new gone : List Handle}
    (h : (c.register g).1.Exchanges c' new gone) : c.Takes c' new gone :=
  ⟨h.handles, h.retiredCount, h.next⟩

/-- A loop is stored under the next handle, or its guards are refused and the handle is used up. -/
theorem addLoop_takes (hd : c.get? ⟨c.next⟩ = none) (s : Site) (g : Guards) (ops : List Op) :
    (∃ gone, (c.addLoop s g ops).2 = .ok ⟨⟨c.next⟩, gone⟩ ∧
        c.Takes (c.addLoop s g ops).1 [⟨c.next⟩] gone) ∨
      (∃ l, (c.addLoop s g ops).2 = .error l) ∧ c.Takes (c.addLoop s g ops).1 [] [] := by
  cases hg : g.firstStale? c.versions with
  | some v =>
      rw [addLoop_of_stale hg]
      exact Or.inr ⟨⟨v.location, rfl⟩, (Exchanges.refl _).takes⟩
  | none =>
      have hvacate := exchanges_vacate (c.register g).1 s
      have hput := exchanges_putLoop (hvacate.dead hd) s g ops
      have hboth := hvacate.trans hput
      rw [List.nil_append, List.append_nil] at hboth
      rw [addLoop_of_current hg]
      exact Or.inl ⟨_, rfl, hboth.takes⟩

theorem addBridge_takes (hd : c.get? ⟨c.next⟩ = none) (p : Handle) (s : Site) (i : Nat) (g : Guards)
    (ops : List Op) :
    (c.addBridge p s i g ops).2 = .ok ⟨c.next⟩ ∧ c.Takes (c.addBridge p s i g ops).1 [⟨c.next⟩] [] ∨
      (∃ l, (c.addBridge p s i g ops).2 = .error l) ∧ c.Takes (c.addBridge p s i g ops).1 [] [] := by
  cases hg : g.firstStale? c.versions with
  | some v =>
      rw [addBridge_of_stale hg]
      exact Or.inr ⟨⟨v.location, rfl⟩, (Exchanges.refl _).takes⟩
  | none =>
      have hput := exchanges_putBridge (c := (c.register g).1) hd p s i g ops
      rw [addBridge_of_current hg]
      exact Or.inl ⟨rfl, hput.takes⟩

end Cache

namespace Custody

/-- The client is answered, and keeps what the answer says. An installation that is refused has used
up the next handle all the same; one that faults has not come so far. -/
def serve (w : Custody) (v : Visit) : Custody :=
  let c := { w.cache with versions := v.versions }
  match v.request with
  | .installLoop e k g ops =>
    match Cache.installLoop e k g ops (v.shapes, c) with
    | .ok (.ok i) s =>
      { cache := s.2
        allocated := w.allocated ++ [i.handle]
        installed := w.installed ++ [i.handle]
        reported := w.reported ++ i.replaced }
    | .ok (.error _) s => { w with cache := s.2, allocated := w.allocated ++ [⟨c.next⟩] }
    | .error _ s => { w with cache := s.2 }
  | .installBridge parent i g ops =>
    match Cache.installBridge parent i g ops c with
    | .ok (.ok h) c =>
      { w with
        cache := c
        allocated := w.allocated ++ [h]
        installed := w.installed ++ [h] }
    | .ok (.error _) c' => { w with cache := c', allocated := w.allocated ++ [⟨c.next⟩] }
    | .error _ c => { w with cache := c }
  | .enter h =>
    match c.enter h with
    | (c, .guardFailed _ retired) => { w with cache := c, reported := w.reported ++ retired }
    | (c, _) => { w with cache := c }
  | .retire h =>
    let (c, retired) := c.retire h
    { w with cache := c, reported := w.reported ++ retired }
  | .apply i =>
    let (c, retired) := c.apply i
    { w with cache := c, reported := w.reported ++ retired }

def run (visits : List Visit) : Custody := visits.foldl serve {}

/-! ## The invariant -/

structure Balanced (w : Custody) : Prop where
  ascending : w.allocated.Pairwise fun h j => h.number < j.number
  lt_next : ∀ h ∈ w.allocated, h.number < w.cache.next
  installed : w.installed.Sublist w.allocated
  handles : w.installed.Perm (w.cache.handles ++ w.reported)
  retiredCount : w.cache.retiredCount = w.reported.length

variable {w : Custody}

theorem balanced_fresh : Balanced {} where
  ascending := List.Pairwise.nil
  lt_next := fun _ hh => absurd hh List.not_mem_nil
  installed := List.Sublist.refl _
  handles := List.Perm.refl _
  retiredCount := rfl

theorem Balanced.versions (hw : w.Balanced) (t : Versions) :
    Balanced { w with cache := { w.cache with versions := t } } :=
  ⟨hw.ascending, hw.lt_next, hw.installed, hw.handles, hw.retiredCount⟩

/-- Nothing is live yet under the next handle, since all live ones were allocated before. -/
theorem Balanced.get?_next (hw : w.Balanced) : w.cache.get? ⟨w.cache.next⟩ = none := by
  by_contra hlive
  have hh : (⟨w.cache.next⟩ : Handle) ∈ w.cache.handles :=
    Cache.mem_handles_iff.2 (Option.ne_none_iff_exists'.1 hlive)
  have hinstalled := hw.handles.mem_iff.2 (List.mem_append_left w.reported hh)
  exact lt_irrefl _ (hw.lt_next _ (hw.installed.subset hinstalled))

theorem Balanced.retire (hw : w.Balanced) {c : Cache} {gone : List Handle}
    (hx : w.cache.Exchanges c [] gone) :
    Balanced { w with cache := c, reported := w.reported ++ gone } where
  ascending := hw.ascending
  lt_next := fun h hh => hx.next ▸ hw.lt_next h hh
  installed := hw.installed
  handles := by
    have hp := hx.handles.append_right w.reported
    have hcomm : (gone ++ w.reported).Perm (w.reported ++ gone) := List.perm_append_comm
    have hswap := hcomm.append_left c.handles
    rw [List.append_nil, List.append_assoc] at hp
    exact hw.handles.trans (hp.trans hswap)
  retiredCount := by
    rw [List.length_append, ← hw.retiredCount]
    exact hx.retiredCount

/-- An installation takes the next handle, whether it uses it or not. -/
theorem Balanced.take (hw : w.Balanced) {c : Cache} {new gone : List Handle}
    (hx : w.cache.Takes c new gone) (hnext : new.Sublist [⟨w.cache.next⟩]) :
    Balanced
      { cache := c
        allocated := w.allocated ++ [⟨w.cache.next⟩]
        installed := w.installed ++ new
        reported := w.reported ++ gone } := by
  constructor
  case ascending =>
    refine List.pairwise_append.2 ⟨hw.ascending, List.pairwise_singleton _ _, fun h hh j hj => ?_⟩
    rw [List.mem_singleton.1 hj]
    exact hw.lt_next h hh
  case lt_next =>
    intro h hh
    have hlt : h.number ≤ w.cache.next := by
      rcases List.mem_append.1 hh with hh | hh
      · exact (hw.lt_next h hh).le
      · exact (congrArg Handle.number (List.mem_singleton.1 hh)).le
    change h.number < c.next
    rw [hx.next]
    omega
  case installed => exact hw.installed.append hnext
  case handles =>
    have hold := hw.handles.append_right new
    have hp := hx.handles.append_right w.reported
    have hnew : (w.reported ++ new).Perm (new ++ w.reported) := List.perm_append_comm
    have hgone : (gone ++ w.reported).Perm (w.reported ++ gone) := List.perm_append_comm
    have hnewLast := hnew.append_left w.cache.handles
    have hgoneLast := hgone.append_left c.handles
    simp only [List.append_assoc] at hold hp
    exact hold.trans (hnewLast.trans (hp.trans hgoneLast))
  case retiredCount =>
    rw [List.length_append, ← hw.retiredCount]
    exact hx.retiredCount

theorem Balanced.serve_installLoop (hw : w.Balanced) (t : Versions) (shapes : Shapes)
    (e : EntryPoint) (k : Key) (g : Guards) (ops : List Op) :
    (w.serve ⟨t, shapes, .installLoop e k g ops⟩).Balanced := by
  have hv := hw.versions t
  simp only [serve, Cache.installLoop_eq]
  cases shapes.check e k with
  | error f => exact hv
  | ok shapes' =>
      simp only
      rcases Cache.addLoop_takes hv.get?_next (e.site k) g ops with
        ⟨gone, hr, hx⟩ | ⟨⟨l, hr⟩, hx⟩
      · rw [hr]
        exact hv.take hx (List.Sublist.refl _)
      · have hb := hv.take hx (List.nil_sublist _)
        rw [List.append_nil, List.append_nil] at hb
        rw [hr]
        exact hb

theorem Balanced.serve_installBridge (hw : w.Balanced) (t : Versions) (shapes : Shapes)
    (parent : Handle) (i : Nat) (g : Guards) (ops : List Op) :
    (w.serve ⟨t, shapes, .installBridge parent i g ops⟩).Balanced := by
  have hv := hw.versions t
  simp only [serve, Cache.installBridge]
  cases Cache.get? { w.cache with versions := t } parent with
  | none => exact hv
  | some p =>
      simp only
      split_ifs
      · rcases Cache.addBridge_takes hv.get?_next parent p.site i g ops with
          ⟨hr, hx⟩ | ⟨⟨l, hr⟩, hx⟩
        · have hb := hv.take hx (List.Sublist.refl _)
          rw [List.append_nil] at hb
          rw [hr]
          exact hb
        · have hb := hv.take hx (List.nil_sublist _)
          rw [List.append_nil, List.append_nil] at hb
          rw [hr]
          exact hb
      · exact hv

theorem Balanced.serve_enter (hw : w.Balanced) (t : Versions) (shapes : Shapes) (h : Handle) :
    (w.serve ⟨t, shapes, .enter h⟩).Balanced := by
  have hv := hw.versions t
  simp only [serve]
  rcases Cache.enter_cases { w.cache with versions := t } h with
    ⟨-, he⟩ | ⟨a, -, -, he⟩ | ⟨a, v, -, -, he⟩
  · rw [he]
    exact hv
  · have hb := hv.retire (Cache.exchanges_entered { w.cache with versions := t } h)
    rw [List.append_nil] at hb
    rw [he]
    exact hb
  · rw [he]
    exact hv.retire (Cache.exchanges_retire _ h)

theorem Balanced.serve (hw : w.Balanced) (v : Visit) : (w.serve v).Balanced := by
  obtain ⟨t, shapes, r⟩ := v
  cases r with
  | installLoop e k g ops => exact hw.serve_installLoop t shapes e k g ops
  | installBridge parent i g ops => exact hw.serve_installBridge t shapes parent i g ops
  | enter h => exact hw.serve_enter t shapes h
  | retire h => exact (hw.versions t).retire (Cache.exchanges_retire _ h)
  | apply i => exact (hw.versions t).retire (Cache.exchanges_retireAll i.dependents _)

theorem balanced_foldl (hw : w.Balanced) (visits : List Visit) :
    (visits.foldl Custody.serve w).Balanced := by
  induction visits generalizing w with
  | nil => exact hw
  | cons v visits ih => exact ih (hw.serve v)

/-! ## No artifact is lost, and none is reported twice -/

/-- Handles were taken in ascending order, and what was installed is live or was reported once. -/
structure Accounted (w : Custody) : Prop where
  count : w.installed.length = w.cache.liveCount + w.cache.retiredCount
  ascending : w.allocated.Pairwise fun h j => h.number < j.number
  installed : w.installed.Sublist w.allocated
  live : ∀ h, w.cache.isLive h = true → h ∈ w.installed
  nodup_reported : w.reported.Nodup
  mem_reported_iff : ∀ h, h ∈ w.reported ↔ h ∈ w.installed ∧ w.cache.isLive h = false

theorem Balanced.nodup_installed (hw : w.Balanced) : w.installed.Nodup := by
  have hsorted := hw.ascending.sublist hw.installed
  refine hsorted.imp fun {h j} hlt he => ?_
  rw [he] at hlt
  exact lt_irrefl _ hlt

theorem Balanced.accounted (hw : w.Balanced) : w.Accounted := by
  have hnodup := hw.handles.nodup_iff.1 hw.nodup_installed
  obtain ⟨-, hreported, hdisjoint⟩ := List.nodup_append.1 hnodup
  have hmem : ∀ h, h ∈ w.installed ↔ w.cache.isLive h = true ∨ h ∈ w.reported := by
    intro h
    rw [hw.handles.mem_iff, List.mem_append, Cache.mem_handles_iff, Cache.isLive_iff]
  constructor
  case count =>
    have hlength := hw.handles.length_eq
    have hretired := hw.retiredCount
    rw [List.length_append, Cache.length_handles] at hlength
    omega
  case ascending => exact hw.ascending
  case installed => exact hw.installed
  case live => exact fun h hh => (hmem h).2 (Or.inl hh)
  case nodup_reported => exact hreported
  case mem_reported_iff =>
    intro h
    constructor
    · intro hh
      refine ⟨(hmem h).2 (Or.inr hh), ?_⟩
      rw [← Bool.not_eq_true, Cache.isLive_iff, ← Cache.mem_handles_iff]
      exact fun hlive => hdisjoint h hlive h hh rfl
    · rintro ⟨hi, hd⟩
      apply ((hmem h).1 hi).resolve_left
      rw [hd]
      exact Bool.false_ne_true

/-- After all requests to a fresh cache, in whatever order and with whatever versions, the artifacts
that were installed are the live ones and those that were reported as retired, each of them once. -/
theorem run_accounted (visits : List Visit) : (run visits).Accounted :=
  (balanced_foldl balanced_fresh visits).accounted

end Custody

end HotLoop.Code
