import HotLoop.Proofs.History

/-!
# Guard sets

Before it installs anything, a client collects captures in guard sets. `Drafting` is a client that
fills any number of them while it goes on with a history of the cache, so captures, writes and
pushes come in any order. A set keeps the first capture of a location that was pushed to it, and a
later capture of that location does not refresh it: once a set has a stale guard, it always has one.
-/

namespace HotLoop.Code

/-- A guard set, and the captures that were pushed to it, also those that it refused. -/
structure Draft where
  guards : Guards := ∅
  offers : List Capture := []

namespace Draft

def push (d : Draft) (k : Capture) : Draft where
  guards := (d.guards.push? k.version).getD d.guards
  offers := d.offers ++ [k]

def kept (d : Draft) : List Capture := d.offers.foldl History.keep []

end Draft

/-- A history, and the guard sets that its client has filled. A number that was not used yet names
an empty set. -/
structure Drafting where
  history : History
  drafts : FinMap Nat Draft := ∅

namespace Drafting

inductive Step where
  | act (s : Code.Step)
  /-- Pushes the capture with this number. -/
  | push (draft capture : Nat)

def draft (w : Drafting) (n : Nat) : Draft := w.drafts.findD n {}

def step (w : Drafting) : Step → Drafting
  | .act s => { w with history := w.history.step s }
  | .push n m =>
    match w.history.captures[m]? with
    | some k => { w with drafts := w.drafts.insert n ((w.draft n).push k) }
    | none => w

def run (table : Nat) (steps : List Step) : Drafting := steps.foldl step ⟨History.fresh table, ∅⟩

end Drafting

/-! ## The captures that a set keeps -/

namespace History

theorem subset_keep (ks : List Capture) (k : Capture) : ks ⊆ keep ks k := by
  unfold keep
  split_ifs
  · exact List.Subset.refl ks
  · exact List.subset_append_left ks [k]

/-- For each location, the first of the captures is kept and no other. -/
theorem filter_foldl_keep (ks : List Capture) (l : Location) :
    (ks.foldl keep []).filter (fun k => k.version.location = l) =
      (ks.find? fun k => k.version.location = l).toList := by
  induction ks using List.reverseRecOn with
  | nil => rfl
  | append_singleton ks k ih =>
      rw [List.foldl_append, List.foldl_cons, List.foldl_nil, List.find?_append]
      generalize ks.foldl keep [] = kept at ih ⊢
      have hnone : (ks.find? fun k => k.version.location = l) = none ↔
          l ∉ kept.map fun k => k.version.location := by
        rw [← Option.toList_eq_nil_iff, ← ih, List.filter_eq_nil_iff]
        simp
      unfold keep
      by_cases hk : k.version.location = l
      · rw [hk]
        split_ifs with hc
        · obtain ⟨j, hj⟩ := Option.ne_none_iff_exists'.1 fun h => hnone.1 h hc
          rw [ih, hj]
          rfl
        · rw [List.filter_append, ih, hnone.2 hc]
          simp [hk]
      · have hlast : ([k].find? fun k => k.version.location = l) = none := by simp [hk]
        rw [hlast, Option.or_none, ← ih]
        split_ifs
        · rfl
        · simp [hk]

variable {w : History}

theorem Written.step {k : Capture} (h : w.Written k) (s : Step) : (w.step s).Written k := by
  unfold Written
  rw [past_step, List.drop_append]
  exact List.mem_append_left _ h

theorem captures_step (w : History) (s : Step) : w.captures ⊆ (w.step s).captures := by
  intro k hk
  cases s with
  | capture l => exact List.mem_append_left _ hk
  | invalidate l =>
      simp only [History.step, perform]
      split <;> exact hk
  | install target picks ops =>
      simp only [History.step, perform]
      split <;> exact hk
  | apply i => exact hk
  | enter h => exact hk
  | retire h => exact hk

end History

/-! ## The invariant of drafting -/

namespace Drafting

variable {w : Drafting}

theorem draft_push {m : Nat} {k : Capture} (hk : w.history.captures[m]? = some k) (n j : Nat) :
    (w.step (.push n m)).draft j = if j = n then (w.draft n).push k else w.draft j := by
  simp only [step, hk]
  exact FinMap.findD_insert _ _ _ _ _

structure Inv (w : Drafting) : Prop where
  history : w.history.Inv
  captured : ∀ n, (w.draft n).guards.captured = (w.draft n).kept.map Capture.version
  offers : ∀ n, ∀ k ∈ (w.draft n).offers, k ∈ w.history.captures

theorem inv_fresh (table : Nat) : Inv ⟨History.fresh table, ∅⟩ where
  history := History.inv_fresh table
  captured := fun _ => rfl
  offers := fun _ _ hk => absurd hk List.not_mem_nil

theorem captured_push {d : Draft} (hd : d.guards.captured = d.kept.map Capture.version)
    (k : Capture) : (d.push k).guards.captured = (d.push k).kept.map Capture.version := by
  have hk : (d.push k).kept = [k].foldl History.keep d.kept := List.foldl_append
  rw [hk, ← History.captured_foldl_keep [k] hd]
  rfl

theorem Inv.step (hw : w.Inv) (s : Step) : (w.step s).Inv := by
  cases s with
  | act s =>
      refine ⟨hw.history.step s, hw.captured, fun n k hk => ?_⟩
      exact History.captures_step w.history s (hw.offers n k hk)
  | push n m =>
      cases hk : w.history.captures[m]? with
      | none =>
          have he : w.step (.push n m) = w := by simp only [Drafting.step, hk]
          rw [he]
          exact hw
      | some k =>
          have hh : (w.step (.push n m)).history = w.history := by simp only [Drafting.step, hk]
          constructor
          case history => exact hh ▸ hw.history
          case captured =>
            intro j
            rw [draft_push hk]
            split_ifs
            · exact captured_push (hw.captured n) k
            · exact hw.captured j
          case offers =>
            intro j i hi
            rw [draft_push hk] at hi
            rw [hh]
            split_ifs at hi
            · rcases List.mem_append.1 hi with hi | hi
              · exact hw.offers n i hi
              · rw [List.mem_singleton.1 hi]
                exact List.mem_of_getElem? hk
            · exact hw.offers j i hi

theorem Inv.foldl (hw : w.Inv) (steps : List Step) : (steps.foldl Drafting.step w).Inv := by
  induction steps generalizing w with
  | nil => exact hw
  | cons s steps ih => exact ih (hw.step s)

theorem Inv.mem_captures (hw : w.Inv) {n : Nat} {k : Capture} (hk : k ∈ (w.draft n).kept) :
    k ∈ w.history.captures := by
  rcases History.mem_foldl_keep _ hk with hk | hk
  · exact absurd hk List.not_mem_nil
  · exact hw.offers n k hk

/-! ## Staleness is final -/

/-- The set keeps a capture whose location was written since. -/
def Spoiled (w : Drafting) (n : Nat) : Prop := ∃ k ∈ (w.draft n).kept, w.history.Written k

theorem Inv.spoiled_iff (hw : w.Inv) (n : Nat) :
    (w.draft n).guards.firstStale? w.history.cache.versions ≠ none ↔ w.Spoiled n := by
  rw [ne_eq, hw.history.firstStale?_eq_none_iff (hw.captured n) fun k hk => hw.mem_captures hk]
  simp [Spoiled]

theorem Spoiled.step {n : Nat} (h : w.Spoiled n) (s : Step) : (w.step s).Spoiled n := by
  obtain ⟨k, hk, hwr⟩ := h
  cases s with
  | act s => exact ⟨k, hk, hwr.step s⟩
  | push j m =>
      cases hm : w.history.captures[m]? with
      | none =>
          have he : w.step (.push j m) = w := by simp only [Drafting.step, hm]
          rw [he]
          exact ⟨k, hk, hwr⟩
      | some i =>
          have hh : (w.step (.push j m)).history = w.history := by simp only [Drafting.step, hm]
          refine ⟨k, ?_, hh ▸ hwr⟩
          rw [draft_push hm]
          split_ifs with hn
          · -- what the set keeps stays kept, whether or not it takes the new capture
            have he : ((w.draft j).push i).kept = History.keep (w.draft j).kept i :=
              List.foldl_append
            rw [he]
            exact History.subset_keep _ i (hn ▸ hk)
          · exact hk

theorem Spoiled.foldl {n : Nat} (h : w.Spoiled n) (steps : List Step) :
    (steps.foldl Drafting.step w).Spoiled n := by
  induction steps generalizing w with
  | nil => exact h
  | cons s steps ih => exact ih (h.step s)

/-! ## What a set holds and answers -/

/-- What the guard set `n` holds, how it answers a push, and what a check of it reports, told by the
captures that were pushed to it and the writes since each of them was made. -/
structure KeepsEarliest (w : Drafting) (n : Nat) : Prop where
  /-- The guards stand in the order in which they were pushed. -/
  captured : (w.draft n).guards.captured = (w.draft n).kept.map Capture.version
  made : ∀ k ∈ (w.draft n).kept, k ∈ w.history.captures ∧
    w.history.past[k.time]? = some (.capture k.version.location)
  /-- Of the pushed captures of a location, the set keeps the first and no other. -/
  earliest : ∀ l, (w.draft n).kept.filter (fun k => k.version.location = l) =
    ((w.draft n).offers.find? fun k => k.version.location = l).toList
  distinct : ((w.draft n).guards.captured.map Version.location).Nodup
  refused_iff : ∀ v, (w.draft n).guards.push? v = none ↔
    ∃ u ∈ (w.draft n).guards.captured, u.location = v.location
  /-- A refused push leaves the set as it is, and any other adds a guard at its end. -/
  pushed : ∀ m k, w.history.captures[m]? = some k →
    ((w.step (.push n m)).draft n).guards.captured =
      if (w.draft n).guards.push? k.version = none then (w.draft n).guards.captured
      else (w.draft n).guards.captured ++ [k.version]
  /-- Nothing but a push to it changes the set. -/
  unpushed : ∀ s, (∀ m, s ≠ .push n m) → (w.step s).draft n = w.draft n
  fails_iff : ∀ v, (w.draft n).guards.firstStale? w.history.cache.versions = some v ↔
    ∃ before k after, (w.draft n).kept = before ++ k :: after ∧
      (∀ j ∈ before, ¬ w.history.Written j) ∧ w.history.Written k ∧ k.version = v
  passes_iff : (w.draft n).guards.firstStale? w.history.cache.versions = none ↔
    ∀ k ∈ (w.draft n).kept, ¬ w.history.Written k
  /-- A set that failed a check fails every later one. -/
  final : (w.draft n).guards.firstStale? w.history.cache.versions ≠ none → ∀ later : List Step,
    ((later.foldl step w).draft n).guards.firstStale?
      (later.foldl step w).history.cache.versions ≠ none

theorem push?_eq_none_iff (g : Guards) (v : Version) :
    g.push? v = none ↔ ∃ u ∈ g.captured, u.location = v.location := by
  have hcov : g.Covers v.location ↔ ∃ u ∈ g.captured, u.location = v.location := List.mem_map
  rw [← hcov]
  by_cases hc : g.Covers v.location <;> simp [Guards.push?, hc]

theorem captured_getD_push? (g : Guards) (v : Version) :
    ((g.push? v).getD g).captured =
      if g.push? v = none then g.captured else g.captured ++ [v] := by
  by_cases hc : g.Covers v.location <;> simp [Guards.push?, hc]

theorem draft_step_of_ne {n : Nat} {s : Step} (hs : ∀ m, s ≠ .push n m) :
    (w.step s).draft n = w.draft n := by
  cases s with
  | act s => rfl
  | push j m =>
      have hj : n ≠ j := fun hj => hs m (by rw [hj])
      cases hm : w.history.captures[m]? with
      | none => simp only [step, hm]
      | some k => rw [draft_push hm, if_neg hj]

theorem Inv.keepsEarliest (hw : w.Inv) (n : Nat) : w.KeepsEarliest n where
  captured := hw.captured n
  made := fun k hk => ⟨hw.mem_captures hk, hw.history.captured k (hw.mem_captures hk)⟩
  earliest := History.filter_foldl_keep _
  distinct := (w.draft n).guards.nodup_locations
  refused_iff := push?_eq_none_iff _
  pushed := fun m k hk => by
    rw [draft_push hk, if_pos rfl]
    exact captured_getD_push? _ _
  unpushed := fun _ hs => draft_step_of_ne hs
  fails_iff := fun _ =>
    hw.history.firstStale?_eq_some_iff (hw.captured n) fun _ hk => hw.mem_captures hk
  passes_iff := hw.history.firstStale?_eq_none_iff (hw.captured n) fun _ hk => hw.mem_captures hk
  final := fun hf later =>
    ((hw.foldl later).spoiled_iff n).2 (((hw.spoiled_iff n).1 hf).foldl later)

/-- However captures, writes and pushes are mixed, a guard set keeps the earliest capture of each
location, a check of it names the first guard in push order that was written since its own capture,
and no later capture repairs a set that has failed. -/
theorem run_keepsEarliest (table : Nat) (steps : List Step) (n : Nat) :
    (run table steps).KeepsEarliest n :=
  ((inv_fresh table).foldl steps).keepsEarliest n

/-- The refused second capture does not repair the set. -/
example :
    let w := run 0 [.act (.capture ⟨⟨0⟩, "n"⟩), .push 0 0, .act (.invalidate ⟨⟨0⟩, "n"⟩),
      .act (.capture ⟨⟨0⟩, "n"⟩), .push 0 1]
    (w.draft 0).offers.map Capture.time = [0, 2] ∧ (w.draft 0).kept.map Capture.time = [0] ∧
      ((w.draft 0).guards.firstStale? w.history.cache.versions).isSome := by
  decide

end Drafting

end HotLoop.Code
