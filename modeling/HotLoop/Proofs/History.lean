import HotLoop.Proofs.Install

/-!
# Histories of a code cache

A client captures versions, builds guards from its captures, installs, enters and retires, and
writes locations with or without telling the cache. `History` is what such a client has done to a
fresh cache. It remembers when each guard of an artifact was captured, so that what an entry check
answers can be compared with the writes since then.
-/

namespace HotLoop.Code

open Trace Versions

/-- A captured version, and the number of steps made before. -/
structure Capture where
  version : Version
  time : Nat

inductive Target where
  | loop (e : EntryPoint) (k : Key)
  | bridge (parent : Handle) (failIndex : Nat)

def Target.install (g : Guards) (ops : List Op) :
    Target → EStateM Fault (Shapes × Cache) (Except Location Handle)
  | .loop e k => do
    let result ← Cache.installLoop e k g ops
    return result.map LoopInstall.handle
  | .bridge parent failIndex => fun s =>
    match Cache.installBridge parent failIndex g ops s.2 with
    | .ok result c => .ok result (s.1, c)
    | .error f c => .error f (s.1, c)

inductive Step where
  | capture (l : Location)
  /-- Revokes the version of a location and leaves the artifacts alone. -/
  | invalidate (l : Location)
  | apply (i : Invalidation)
  /-- The guards are the captures with these numbers, pushed in this order. -/
  | install (target : Target) (picks : List Nat) (ops : List Op)
  | enter (h : Handle)
  | retire (h : Handle)

structure History where
  cache : Cache
  shapes : Shapes := ∅
  captures : List Capture := []
  /-- The captures behind the guards of each artifact that was installed. -/
  guarded : FinMap Handle (List Capture) := ∅
  past : List Step := []

namespace History

def fresh (table : Nat) : History := { cache := { versions := { table := table } } }

def picked (w : History) (picks : List Nat) : List Capture :=
  picks.filterMap fun n => w.captures[n]?

def guards (w : History) (picks : List Nat) : Guards :=
  .ofList ((w.picked picks).map Capture.version)

/-- Adds a capture at the end, unless its location is covered. -/
def keep (ks : List Capture) (k : Capture) : List Capture :=
  if k.version.location ∈ ks.map fun k => k.version.location then ks else ks ++ [k]

def guardsOf (w : History) (h : Handle) : List Capture := w.guarded.findD h []

/-- The effect of a step. One that faults has the effect that it had before the fault. -/
def perform (w : History) : Step → History
  | .capture l =>
    let (t, v) := w.cache.versions.read l
    { w with
      cache := { w.cache with versions := t }
      captures := w.captures ++ [⟨v, w.past.length⟩] }
  | .invalidate l =>
    match w.cache.versions.invalidate? l with
    | some (t, _) => { w with cache := { w.cache with versions := t } }
    | none => w
  | .apply i => { w with cache := (w.cache.apply i).1 }
  | .install target picks ops =>
    match target.install (w.guards picks) ops (w.shapes, w.cache) with
    | .ok (.ok h) (shapes, c) =>
      { w with
        cache := c
        shapes := shapes
        guarded := w.guarded.insert h ((w.picked picks).foldl keep []) }
    | .ok (.error _) (shapes, c) => { w with cache := c, shapes := shapes }
    | .error _ (shapes, c) => { w with cache := c, shapes := shapes }
  | .enter h => { w with cache := (w.cache.enter h).1 }
  | .retire h => { w with cache := (w.cache.retire h).1 }

def step (w : History) (s : Step) : History := { w.perform s with past := w.past ++ [s] }

def run (table : Nat) (steps : List Step) : History := steps.foldl step (fresh table)

/-- The location of the capture was written since. -/
def Written (w : History) (k : Capture) : Prop :=
  .invalidate k.version.location ∈ w.past.drop k.time

/-! ## Guards from captures -/

theorem captured_foldl_keep (ks : List Capture) {g : Guards} {kept : List Capture}
    (hg : g.captured = kept.map Capture.version) :
    ((ks.map Capture.version).foldl (fun g v => (g.push? v).getD g) g).captured =
      (ks.foldl keep kept).map Capture.version := by
  induction ks generalizing g kept with
  | nil => exact hg
  | cons k ks ih =>
      rw [List.map_cons, List.foldl_cons, List.foldl_cons]
      refine ih ?_
      have hcov : g.Covers k.version.location ↔
          k.version.location ∈ kept.map fun k => k.version.location := by
        unfold Guards.Covers
        rw [hg, List.map_map]
        rfl
      unfold Guards.push? keep
      by_cases hm : g.Covers k.version.location
      · rw [dif_pos hm, if_pos (hcov.1 hm)]
        exact hg
      · rw [dif_neg hm, if_neg (fun hk => hm (hcov.2 hk))]
        simp [hg]

/-- The guards hold the picked captures, of two for one location the one that was picked first. -/
theorem captured_guards (w : History) (picks : List Nat) :
    (w.guards picks).captured = ((w.picked picks).foldl keep []).map Capture.version :=
  captured_foldl_keep _ rfl

theorem mem_foldl_keep (ks : List Capture) {kept : List Capture} {k : Capture}
    (hk : k ∈ ks.foldl keep kept) : k ∈ kept ∨ k ∈ ks := by
  induction ks generalizing kept with
  | nil => exact Or.inl hk
  | cons j ks ih =>
      rcases ih hk with hk | hk
      · unfold keep at hk
        split_ifs at hk with hm
        · exact Or.inl hk
        · rw [List.mem_append, List.mem_singleton] at hk
          rcases hk with hk | rfl
          · exact Or.inl hk
          · exact Or.inr List.mem_cons_self
      · exact Or.inr (List.mem_cons_of_mem _ hk)

theorem mem_captures_of_mem_picked {w : History} {picks : List Nat} {k : Capture}
    (hk : k ∈ w.picked picks) : k ∈ w.captures := by
  obtain ⟨n, -, hn⟩ := List.mem_filterMap.1 hk
  exact List.mem_of_getElem? hn

/-! ## Installing a target -/

/-- An installation stores an artifact with these guards under the next handle, or stops after the
registration of its guards, or faults and changes nothing. -/
theorem install_cases (target : Target) (g : Guards) (ops : List Op) (shapes : Shapes) {c : Cache}
    (hc : c.Sound) :
    (∃ shapes' c' a, target.install g ops (shapes, c) = .ok (.ok ⟨c.next⟩) (shapes', c') ∧
        g.firstStale? c.versions = none ∧ c'.get? ⟨c.next⟩ = some a ∧ a.guards = g ∧ c'.Sound ∧
        c'.next = c.next + 1 ∧ SameVersions c.versions c'.versions ∧ c.Later c') ∨
      (∃ shapes' v, target.install g ops (shapes, c) =
          .ok (.error v.location) (shapes', (c.register g).1) ∧
        g.firstStale? c.versions = some v) ∨
      ∃ f, target.install g ops (shapes, c) = .error f (shapes, c) := by
  cases target with
  | loop e k =>
      cases hk : shapes.check e k with
      | error f =>
          refine Or.inr (Or.inr ⟨f, ?_⟩)
          simp only [Target.install, bind, EStateM.bind, Cache.installLoop_eq, hk]
      | ok shapes' =>
          have hi : Target.install g ops (.loop e k) (shapes, c) =
              .ok ((c.addLoop (e.site k) g ops).2.map LoopInstall.handle)
                (shapes', (c.addLoop (e.site k) g ops).1) := by
            simp only [Target.install, bind, EStateM.bind, Cache.installLoop_eq, hk]
            rfl
          cases hg : g.firstStale? c.versions with
          | some v =>
              refine Or.inr (Or.inl ⟨shapes', v, ?_, rfl⟩)
              rw [hi, Cache.addLoop_of_stale hg]
              rfl
          | none =>
              have hs := hc.addLoop (e.site k) g ops
              have hx := Cache.next_addLoop hc (e.site k) g ops
              have hv := Cache.sameVersions_addLoop hc (e.site k) g ops
              have hl := Cache.later_addLoop hc (e.site k) g ops
              rw [Cache.addLoop_of_current hg] at hi hs hx hv hl
              refine Or.inl ⟨shapes', _, Cache.newLoop ⟨c.next⟩ (e.site k) g ops, hi, rfl, ?_, rfl,
                hs, hx, hv, hl⟩
              rw [Cache.get?_putLoop, if_pos rfl]
  | bridge parent i =>
      by_cases hp : ∃ p, c.get? parent = some p ∧ p.IsLoop
      · obtain ⟨p, hp, hk⟩ := hp
        have hi : Target.install g ops (.bridge parent i) (shapes, c) =
            .ok (c.addBridge parent p.site i g ops).2
              (shapes, (c.addBridge parent p.site i g ops).1) := by
          simp only [Target.install, Cache.installBridge, hp, if_pos hk]
        cases hg : g.firstStale? c.versions with
        | some v =>
            refine Or.inr (Or.inl ⟨shapes, v, ?_, rfl⟩)
            rw [hi, Cache.addBridge_of_stale hg]
        | none =>
            have hs := hc.addBridge hp hk i g ops
            have hx := Cache.next_addBridge c parent p.site i g ops
            have hv := Cache.sameVersions_addBridge c parent p.site i g ops
            have hl := Cache.later_addBridge c parent p.site i g ops
            rw [Cache.addBridge_of_current hg] at hi hs hx hv hl
            refine Or.inl ⟨shapes, _, Cache.newBridge ⟨c.next⟩ parent p.site i g ops, hi, rfl, ?_,
              rfl, hs, hx, hv, hl⟩
            rw [Cache.get?_putBridge, if_pos rfl]
      · refine Or.inr (Or.inr ⟨.notLiveLoop parent, ?_⟩)
        simp only [Target.install, Cache.installBridge]
        cases ha : c.get? parent with
        | none => rfl
        | some p =>
            have hk : ¬ p.IsLoop := fun hk => hp ⟨p, ha, hk⟩
            simp only [if_neg hk]

/-! ## The invariant of histories -/

/-- Currency of a captured version is the absence of writes since its capture, and the guards of an
artifact are captures of the history. -/
structure Inv (w : History) : Prop where
  sound : w.cache.Sound
  captured : ∀ k ∈ w.captures, w.past[k.time]? = some (.capture k.version.location)
  issued : ∀ k ∈ w.captures, w.cache.versions.Issued k.version
  isCurrent_iff : ∀ k ∈ w.captures, w.cache.versions.IsCurrent k.version ↔ ¬ w.Written k
  guards : ∀ h a, w.cache.get? h = some a →
    a.guards.captured = (w.guardsOf h).map Capture.version ∧ ∀ k ∈ w.guardsOf h, k ∈ w.captures

theorem inv_fresh (table : Nat) : (fresh table).Inv where
  sound := Cache.sound_empty table
  captured := fun k hk => absurd hk List.not_mem_nil
  issued := fun k hk => absurd hk List.not_mem_nil
  isCurrent_iff := fun k hk => absurd hk List.not_mem_nil
  guards := fun h a ha => by cases ha

variable {w : History}

theorem Inv.time_lt (hw : w.Inv) {k : Capture} (hk : k ∈ w.captures) : k.time < w.past.length := by
  obtain ⟨hlt, -⟩ := List.getElem?_eq_some_iff.1 (hw.captured k hk)
  exact hlt

theorem past_step (w : History) (s : Step) : (w.step s).past = w.past ++ [s] := rfl

theorem Inv.captured_append (hw : w.Inv) {k : Capture} (hk : k ∈ w.captures) (s : Step) :
    (w.past ++ [s])[k.time]? = some (.capture k.version.location) := by
  rw [List.getElem?_append_left (hw.time_lt hk)]
  exact hw.captured k hk

/-- A step writes the location of an old capture if it invalidates just that location. -/
theorem Inv.mem_drop_append (hw : w.Inv) {k : Capture} (hk : k ∈ w.captures) (s : Step) :
    .invalidate k.version.location ∈ (w.past ++ [s]).drop k.time ↔
      w.Written k ∨ s = .invalidate k.version.location := by
  rw [List.drop_append_of_le_length (hw.time_lt hk).le, List.mem_append, List.mem_singleton,
    eq_comm (a := s)]
  rfl

/-- A step that captures nothing keeps the invariant if it makes stale exactly what it writes, and if
it accounts for the guards of what it leaves live. -/
theorem Inv.of_cache (hw : w.Inv) (s : Step) {c : Cache} (hc : c.Sound) (shapes : Shapes)
    {guarded : FinMap Handle (List Capture)}
    (hissued : ∀ k ∈ w.captures, c.versions.Issued k.version)
    (hcurrent : ∀ k ∈ w.captures, c.versions.IsCurrent k.version ↔
      w.cache.versions.IsCurrent k.version ∧ s ≠ .invalidate k.version.location)
    (hguards : ∀ h a, c.get? h = some a →
      a.guards.captured = (guarded.findD h []).map Capture.version ∧
        ∀ k ∈ guarded.findD h [], k ∈ w.captures) :
    Inv { w with cache := c, shapes := shapes, guarded := guarded, past := w.past ++ [s] } where
  sound := hc
  captured := fun k hk => hw.captured_append hk s
  issued := hissued
  isCurrent_iff := fun k hk => by
    unfold Written
    rw [hcurrent k hk, hw.isCurrent_iff k hk, hw.mem_drop_append hk, not_or]
  guards := hguards

theorem Inv.of_sameVersions (hw : w.Inv) {s : Step} (hs : ∀ l, s ≠ .invalidate l) {c : Cache}
    (hc : c.Sound) (hv : SameVersions w.cache.versions c.versions)
    (hl : ∀ h a', c.get? h = some a' → ∃ a, w.cache.get? h = some a ∧ a'.guards = a.guards)
    (shapes : Shapes) :
    Inv { w with cache := c, shapes := shapes, past := w.past ++ [s] } := by
  refine hw.of_cache s hc shapes (fun k hk => (hv.issued_iff _).2 (hw.issued k hk))
    (fun k hk => ?_) fun h a' ha' => ?_
  · rw [hv.isCurrent_iff, and_iff_left (hs _)]
  · obtain ⟨a, ha, hg⟩ := hl h a' ha'
    rw [hg]
    exact hw.guards h a ha

theorem live_of_without {c c' : Cache} {gone : List Handle} (hwo : c.Without c' gone) :
    ∀ h a', c'.get? h = some a' → ∃ a, c.get? h = some a ∧ a'.guards = a.guards := by
  intro h a' ha'
  obtain ⟨a, ha, hl⟩ := hwo.live h a' ha'
  exact ⟨a, ha, hl.guards⟩

theorem captures_capture (w : History) (l : Location) :
    (w.step (.capture l)).captures =
      w.captures ++ [⟨(w.cache.versions.read l).2, w.past.length⟩] := rfl

theorem Inv.capture (hw : w.Inv) (l : Location) : (w.step (.capture l)).Inv := by
  constructor
  case sound => exact hw.sound.read l
  case captured =>
    intro k hk
    rw [captures_capture] at hk
    rcases List.mem_append.1 hk with hk | hk
    · exact hw.captured_append hk _
    · rw [List.mem_singleton.1 hk, location_read, past_step, List.getElem?_concat_length]
  case issued =>
    intro k hk
    rw [captures_capture] at hk
    rcases List.mem_append.1 hk with hk | hk
    · exact (hw.issued k hk).read l
    · rw [List.mem_singleton.1 hk]
      exact issued_of_isCurrent (isCurrent_read _ l)
  case isCurrent_iff =>
    intro k hk
    unfold Written
    rw [captures_capture] at hk
    rcases List.mem_append.1 hk with hk | hk
    · refine ((hw.issued k hk).isCurrent_read_iff l).trans ?_
      rw [past_step, hw.mem_drop_append hk, hw.isCurrent_iff k hk]
      simp
    · rw [List.mem_singleton.1 hk, past_step]
      refine iff_of_true (isCurrent_read _ l) fun hwr => ?_
      simp at hwr
  case guards =>
    intro h a ha
    obtain ⟨hg, hm⟩ := hw.guards h a ha
    exact ⟨hg, fun k hk => List.mem_append_left _ (hm k hk)⟩

theorem Inv.invalidate (hw : w.Inv) (l : Location) : (w.step (.invalidate l)).Inv := by
  cases ht : w.cache.versions.invalidate? l with
  | none =>
      have he : w.step (.invalidate l) = { w with past := w.past ++ [.invalidate l] } := by
        simp only [step, perform, ht]
      -- the location was never captured, since a captured version is in the table
      have hne : ∀ k ∈ w.captures, Step.invalidate l ≠ .invalidate k.version.location := by
        intro k hk hl
        obtain ⟨-, u, hu, -⟩ := hw.issued k hk
        rw [← Step.invalidate.inj hl, (invalidate?_eq_none_iff _ _).1 ht] at hu
        cases hu
      rw [he]
      exact hw.of_cache (.invalidate l) hw.sound w.shapes hw.issued
        (fun k hk => (and_iff_left (hne k hk)).symm) hw.guards
  | some p =>
      obtain ⟨t, i⟩ := p
      have he : w.step (.invalidate l) =
          { w with cache := { w.cache with versions := t }, past := w.past ++ [.invalidate l] } := by
        simp only [step, perform, ht]
      rw [he]
      refine hw.of_cache (.invalidate l) (hw.sound.invalidate ht) w.shapes
        (fun k hk => (hw.issued k hk).invalidate hw.sound.versions ht) (fun k hk => ?_) hw.guards
      rw [(hw.issued k hk).isCurrent_invalidate_iff hw.sound.versions ht, ne_comm, ne_eq, ne_eq,
        Step.invalidate.injEq]

theorem Inv.install (hw : w.Inv) (target : Target) (picks : List Nat) (ops : List Op) :
    (w.step (.install target picks ops)).Inv := by
  rcases install_cases target (w.guards picks) ops w.shapes hw.sound with
    ⟨shapes, c, a, hi, -, ha, hg, hc, hx, hv, hl⟩ | ⟨shapes, v, hi, -⟩ | ⟨f, hi⟩
  · have he : w.step (.install target picks ops) =
        { w with
          cache := c
          shapes := shapes
          guarded := w.guarded.insert ⟨w.cache.next⟩ ((w.picked picks).foldl keep [])
          past := w.past ++ [.install target picks ops] } := by
      simp only [step, perform, hi]
    rw [he]
    refine hw.of_cache _ hc shapes (fun k hk => (hv.issued_iff _).2 (hw.issued k hk))
      (fun k hk => ?_) fun h b hb => ?_
    · rw [hv.isCurrent_iff, and_iff_left (by simp)]
    · rw [FinMap.findD_insert]
      by_cases hh : h = ⟨w.cache.next⟩
      · rw [if_pos hh]
        rw [hh] at hb
        obtain rfl := Option.some.inj (ha.symm.trans hb)
        refine ⟨?_, fun k hk => ?_⟩
        · rw [hg]
          exact captured_guards w picks
        · rcases mem_foldl_keep _ hk with hk | hk
          · cases hk
          · exact mem_captures_of_mem_picked hk
      · rw [if_neg hh]
        have hlt : h.number < w.cache.next := by
          have hlt := (hc.handle h b hb).2
          have hne : h.number ≠ w.cache.next := fun he => hh (by rw [← he])
          omega
        obtain ⟨a', ha', -, -, hg'⟩ := hl.live h b hlt hb
        rw [hg']
        exact hw.guards h a' ha'
  · have hs := hw.of_sameVersions (s := .install target picks ops) (by simp)
      (hw.sound.register (w.guards picks)) (Cache.register_spec w.cache (w.guards picks)).1
      (fun h a ha => ⟨a, ha, rfl⟩) shapes
    simpa only [step, perform, hi] using hs
  · have hs := hw.of_sameVersions (s := .install target picks ops) (by simp) hw.sound
      (SameVersions.refl _) (fun h a ha => ⟨a, ha, rfl⟩) w.shapes
    simpa only [step, perform, hi] using hs

theorem Inv.step (hw : w.Inv) (s : Step) : (w.step s).Inv := by
  cases s with
  | capture l => exact hw.capture l
  | invalidate l => exact hw.invalidate l
  | install target picks ops => exact hw.install target picks ops
  | apply i =>
      have hwo := Cache.without_retireAll i.dependents hw.sound
      exact hw.of_sameVersions (by simp) (hwo.sound hw.sound) hwo.versions (live_of_without hwo) _
  | enter h =>
      exact hw.of_sameVersions (by simp) (hw.sound.enter h) (Cache.sameVersions_enter hw.sound h)
        (fun j a' ha' => Cache.live_enter hw.sound ha') _
  | retire h =>
      have hwo := Cache.without_retire hw.sound h
      exact hw.of_sameVersions (by simp) (hwo.sound hw.sound) hwo.versions (live_of_without hwo) _

theorem inv_foldl (hw : w.Inv) (steps : List Step) : (steps.foldl step w).Inv := by
  induction steps generalizing w with
  | nil => exact hw
  | cons s steps ih => exact ih (hw.step s)

theorem inv_run (table : Nat) (steps : List Step) : (run table steps).Inv :=
  inv_foldl (inv_fresh table) steps

theorem Inv.later_step (hw : w.Inv) (s : Step) : w.cache.Later (w.step s).cache := by
  cases s with
  | capture l => exact ⟨le_rfl, fun h a _ ha => ⟨a, ha, rfl, rfl, rfl⟩⟩
  | invalidate l =>
      simp only [History.step, perform]
      cases w.cache.versions.invalidate? l with
      | none => exact Cache.Later.refl _
      | some p => exact ⟨le_rfl, fun h a _ ha => ⟨a, ha, rfl, rfl, rfl⟩⟩
  | install target picks ops =>
      simp only [History.step, perform]
      rcases install_cases target (w.guards picks) ops w.shapes hw.sound with
        ⟨shapes, c, a, hi, -, -, -, -, -, -, hl⟩ | ⟨shapes, v, hi, -⟩ | ⟨f, hi⟩
      · rw [hi]
        exact hl
      · rw [hi]
        exact Cache.later_register _ _
      · rw [hi]
        exact Cache.Later.refl _
  | apply i => exact (Cache.without_retireAll i.dependents hw.sound).later
  | enter h => exact Cache.later_enter hw.sound h
  | retire h => exact (Cache.without_retire hw.sound h).later

theorem Inv.later_foldl (hw : w.Inv) (steps : List Step) :
    w.cache.Later (steps.foldl History.step w).cache := by
  induction steps generalizing w with
  | nil => exact Cache.Later.refl _
  | cons s steps ih => exact (hw.later_step s).trans (ih (hw.step s))

theorem past_foldl (w : History) (steps : List Step) :
    (steps.foldl step w).past = w.past ++ steps := by
  induction steps generalizing w with
  | nil => exact (List.append_nil _).symm
  | cons s steps ih =>
      rw [List.foldl_cons, ih, past_step, List.append_assoc, List.singleton_append]

theorem past_run (table : Nat) (steps : List Step) : (run table steps).past = steps :=
  past_foldl (fresh table) steps

/-! ## Entering -/

/-- What entering `h` answers and does, told by the writes since the captures behind its guards. -/
structure EntrySound (w : History) (h : Handle) : Prop where
  /-- The guards stand in the order of their captures, and each capture was a step of the history. -/
  guards : ∀ a, w.cache.get? h = some a → a.guards.captured = (w.guardsOf h).map Capture.version ∧
    ∀ k ∈ w.guardsOf h, k ∈ w.captures ∧ w.past[k.time]? = some (.capture k.version.location)
  entered_iff : (w.cache.enter h).2 = .entered ↔
    w.cache.isLive h = true ∧ ∀ k ∈ w.guardsOf h, ¬ w.Written k
  /-- Nothing else changes than the entries of `h`, by one. -/
  entered : (w.cache.enter h).2 = .entered →
    (w.cache.enter h).1 = { w.cache with artifacts := (w.cache.enter h).1.artifacts } ∧
      ∃ a, w.cache.get? h = some a ∧ ∀ j, (w.cache.enter h).1.get? j =
        if j = h then some { a with entries := a.entries + 1 } else w.cache.get? j
  guardFailed_iff : ∀ l, (∃ retired, (w.cache.enter h).2 = .guardFailed l retired) ↔
    w.cache.isLive h = true ∧ ∃ before k after, w.guardsOf h = before ++ k :: after ∧
      (∀ j ∈ before, ¬ w.Written j) ∧ w.Written k ∧ k.version.location = l
  /-- The artifact and the bridges that it knows are dead after all later steps. -/
  guardFailed : ∀ l retired, (w.cache.enter h).2 = .guardFailed l retired → ∀ (later : List Step) j,
    (j = h ∨ ∃ a i, w.cache.get? h = some a ∧ a.bridges.find? i = some j) →
      (later.foldl step (w.step (.enter h))).cache.isLive j = false ∧
        ((later.foldl step (w.step (.enter h))).cache.enter j).2 = .dead
  dead_iff : (w.cache.enter h).2 = .dead ↔ w.cache.isLive h = false
  dead : (w.cache.enter h).2 = .dead → (w.cache.enter h).1 = w.cache

/-- Guards that come from captures hold as long as no captured location is written. -/
theorem Inv.firstStale?_eq_none_iff (hw : w.Inv) {g : Guards} {ks : List Capture}
    (hg : g.captured = ks.map Capture.version) (hm : ∀ k ∈ ks, k ∈ w.captures) :
    g.firstStale? w.cache.versions = none ↔ ∀ k ∈ ks, ¬ w.Written k := by
  rw [Cache.firstStale?_eq_none_iff, hg, List.forall_mem_map]
  exact forall₂_congr fun k hk => hw.isCurrent_iff k (hm k hk)

/-- The first stale guard belongs to the first capture whose location was written since. -/
theorem Inv.firstStale?_eq_some_iff (hw : w.Inv) {g : Guards} {ks : List Capture} {v : Version}
    (hg : g.captured = ks.map Capture.version) (hm : ∀ k ∈ ks, k ∈ w.captures) :
    g.firstStale? w.cache.versions = some v ↔
      ∃ before k after, ks = before ++ k :: after ∧ (∀ j ∈ before, ¬ w.Written j) ∧
        w.Written k ∧ k.version = v := by
  have hcur : ∀ k ∈ ks, (¬ w.cache.versions.IsCurrent k.version ↔ w.Written k) :=
    fun k hk => by rw [hw.isCurrent_iff k (hm k hk), not_not]
  unfold Guards.firstStale?
  rw [hg, List.find?_map, Option.map_eq_some_iff]
  constructor
  · rintro ⟨k, hk, rfl⟩
    obtain ⟨hs, before, after, he, hb⟩ := List.find?_eq_some_iff_append.1 hk
    refine ⟨before, k, after, he, fun j hj => ?_, ?_, rfl⟩
    · rw [← hcur j (he ▸ List.mem_append_left _ hj)]
      simpa using hb j hj
    · rw [← hcur k (he ▸ List.mem_append_right _ List.mem_cons_self)]
      simpa using hs
  · rintro ⟨before, k, after, he, hb, hk, rfl⟩
    refine ⟨k, List.find?_eq_some_iff_append.2 ⟨?_, before, after, he, fun j hj => ?_⟩, rfl⟩
    · simpa using (hcur k (he ▸ List.mem_append_right _ List.mem_cons_self)).2 hk
    · have hj' := mt (hcur j (he ▸ List.mem_append_left _ hj)).1 (hb j hj)
      simpa using hj'

theorem Inv.dead_after_guardFailed (hw : w.Inv) {h : Handle} {l : Location} {retired : List Handle}
    (hf : (w.cache.enter h).2 = .guardFailed l retired) (later : List Step) {j : Handle}
    (hj : j = h ∨ ∃ a i, w.cache.get? h = some a ∧ a.bridges.find? i = some j) :
    (later.foldl History.step (w.step (.enter h))).cache.get? j = none := by
  obtain ⟨a, v, ha, hg, -⟩ := Cache.enter_guardFailed_iff.1 ⟨retired, hf⟩
  have hwo := Cache.without_retire hw.sound h
  have hm : j ∈ (w.cache.retire h).2 := by
    refine (Cache.mem_retire hw.sound).2 ⟨a, ha, hj.imp_right ?_⟩
    rintro ⟨b, i, hb, hi⟩
    obtain rfl := Option.some.inj (ha.symm.trans hb)
    exact ⟨i, hi⟩
  have hdead : (w.step (.enter h)).cache.get? j = none := by
    change (w.cache.enter h).1.get? j = none
    rw [Cache.enter_of_stale ha hg]
    exact (hwo.dead j).2 (Or.inl hm)
  refine ((hw.step (.enter h)).later_foldl later).dead ?_ hdead
  obtain ⟨b, hb⟩ := hwo.listed j hm
  exact ((hw.sound.handle j b hb).2).trans_le (hw.later_step (.enter h)).next

theorem Inv.entrySound (hw : w.Inv) (h : Handle) : w.EntrySound h where
  guards := fun a ha => by
    obtain ⟨hg, hm⟩ := hw.guards h a ha
    exact ⟨hg, fun k hk => ⟨hm k hk, hw.captured k (hm k hk)⟩⟩
  entered_iff := by
    rw [Cache.enter_entered_iff, Cache.isLive_iff]
    constructor
    · rintro ⟨a, ha, hs⟩
      obtain ⟨hg, hm⟩ := hw.guards h a ha
      exact ⟨⟨a, ha⟩, (hw.firstStale?_eq_none_iff hg hm).1 hs⟩
    · rintro ⟨⟨a, ha⟩, hn⟩
      obtain ⟨hg, hm⟩ := hw.guards h a ha
      exact ⟨a, ha, (hw.firstStale?_eq_none_iff hg hm).2 hn⟩
  entered := fun he => by
    obtain ⟨a, ha, hg⟩ := Cache.enter_entered_iff.1 he
    rw [Cache.enter_of_current ha hg]
    refine ⟨rfl, a, ha, fun j => (Cache.get?_entered w.cache h j).trans ?_⟩
    by_cases hj : j = h
    · rw [if_pos hj, if_pos hj, hj, ha]
      rfl
    · rw [if_neg hj, if_neg hj]
  guardFailed_iff := fun l => by
    rw [Cache.enter_guardFailed_iff, Cache.isLive_iff]
    constructor
    · rintro ⟨a, v, ha, hs, rfl⟩
      obtain ⟨hg, hm⟩ := hw.guards h a ha
      obtain ⟨before, k, after, hk, hb, hwr, rfl⟩ := (hw.firstStale?_eq_some_iff hg hm).1 hs
      exact ⟨⟨a, ha⟩, before, k, after, hk, hb, hwr, rfl⟩
    · rintro ⟨⟨a, ha⟩, before, k, after, hk, hb, hwr, rfl⟩
      obtain ⟨hg, hm⟩ := hw.guards h a ha
      have hs := (hw.firstStale?_eq_some_iff hg hm).2 ⟨before, k, after, hk, hb, hwr, rfl⟩
      exact ⟨a, k.version, ha, hs, rfl⟩
  guardFailed := fun l retired hf later j hj => by
    have hdead := hw.dead_after_guardFailed hf later hj
    exact ⟨(Cache.isLive_eq_false_iff _ j).2 hdead, Cache.enter_dead_iff.2 hdead⟩
  dead_iff := by rw [Cache.enter_dead_iff, Cache.isLive_eq_false_iff]
  dead := fun hd => by rw [Cache.enter_of_dead (Cache.enter_dead_iff.1 hd)]

/-- Entering is sound in all histories: it succeeds just while no guarded location was written since
its capture, and a failure is final. -/
theorem run_entrySound (table : Nat) (steps : List Step) (h : Handle) :
    (run table steps).EntrySound h :=
  (inv_run table steps).entrySound h

end History

end HotLoop.Code
