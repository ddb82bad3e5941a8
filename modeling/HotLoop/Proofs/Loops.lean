import HotLoop.Proofs.History

/-!
# One loop for each key

A cache finds loops by entry point and key. In all histories it finds exactly the live loops, each
under the entry point and the key that it was installed for. Installing a loop displaces at most the
one of the same entry point under an equal key, and it leaves all others where they are.
-/

namespace HotLoop

/-! ## Equal keys -/

/-- Two values of one variant with the same payload, which for a float is its bit pattern. -/
def Green.Agrees : Green → Green → Prop
  | .int i, .int j => i = j
  | .float bits, .float bits' => bits = bits'
  | .bool b, .bool b' => b = b'
  | .str s, .str s' => s = s'
  | .ref o, .ref o' => o = o'
  | _, _ => False

theorem Green.agrees_iff {g g' : Green} : g.Agrees g' ↔ g = g' := by
  cases g <;> cases g' <;> simp [Agrees]

structure Key.Agrees (k k' : Key) : Prop where
  length : k.values.length = k'.values.length
  values : ∀ (n : Nat) (g g' : Green), k.values[n]? = some g → k'.values[n]? = some g' → g.Agrees g'

theorem Key.agrees_iff {k k' : Key} : k.Agrees k' ↔ k = k' := by
  obtain ⟨vs⟩ := k
  obtain ⟨vs'⟩ := k'
  rw [Key.mk.injEq]
  constructor
  · rintro ⟨hlen, hval⟩
    refine List.ext_getElem hlen fun n hn hn' => Green.agrees_iff.1 ?_
    exact hval n _ _ (List.getElem?_eq_getElem hn) (List.getElem?_eq_getElem hn')
  · rintro rfl
    refine ⟨rfl, fun n g g' hg hg' => Green.agrees_iff.2 ?_⟩
    exact Option.some.inj (hg.symm.trans hg')

namespace Code

open Trace Versions

namespace Cache

variable {c c' : Cache} {s : Site} {g : Guards} {ops : List Op} {h : Handle}

/-! ## What a new loop displaces -/

theorem nodup_removeAll (hs : List Handle) {c : Cache}
    (hn : ∀ l, (c.versions.dependents l).Nodup) : (c.removeAll hs).2.Nodup := by
  induction hs generalizing c with
  | nil => exact List.nodup_nil
  | cons h hs ih =>
      cases ha : c.get? h with
      | none =>
          simp only [removeAll, ha]
          exact ih hn
      | some a =>
          obtain ⟨-, -, hn'⟩ := release_spec h a.guards.captured hn
          obtain ⟨-, -, -, -, -, hm, -⟩ := removeAll_spec hs (c.remove h a) hn'
          simp only [removeAll, ha]
          refine List.nodup_cons.2 ⟨fun hh => ?_, ih hn'⟩
          obtain ⟨-, b, hb⟩ := (hm h).1 hh
          rw [get?_remove, if_pos rfl] at hb
          cases hb

/-- A retired loop is listed first, and behind it each live bridge that it knows, once. -/
theorem retire_loop_eq (hc : c.Sound) {a : Artifact} (ha : c.get? h = some a)
    (hk : a.kind = .loop) :
    ∃ bridges, (c.retire h).2 = h :: bridges ∧ bridges.Nodup ∧
      ∀ b, b ∈ bridges ↔ c.isLive b = true ∧ b ∈ a.bridges.values := by
  have hn : ∀ l, ((c.dropLoop h a).versions.dependents l).Nodup := by
    rw [versions_dropLoop]
    exact (release_spec h a.guards.captured hc.versions.nodup).2.2
  obtain ⟨-, -, -, -, -, hm, -⟩ := removeAll_spec a.bridges.values (c.dropLoop h a) hn
  refine ⟨((c.dropLoop h a).removeAll a.bridges.values).2, by rw [retire_of_loop ha hk],
    nodup_removeAll _ hn, fun b => ?_⟩
  rw [hm, and_comm, isLive_iff]
  refine and_congr_left fun hb => ?_
  obtain ⟨i, hi, -⟩ := hc.exists_of_mem_bridges ha hb
  rw [get?_dropLoop, if_neg (hc.bridge_ne_loop ha hi ha hk)]

/-- The handles `gone` are the loop of the site, if there is one, and then each live bridge in its
map, once. -/
def Displaces (c : Cache) (s : Site) (gone : List Handle) : Prop :=
  match c.loop? s with
  | none => gone = []
  | some old => ∃ a bridges, c.get? old = some a ∧ gone = old :: bridges ∧ bridges.Nodup ∧
      ∀ b, b ∈ bridges ↔ c.isLive b = true ∧ b ∈ a.bridges.values

theorem displaces_vacate (hc : c.Sound) (s : Site) : c.Displaces s (c.vacate s).2 := by
  unfold Displaces
  cases hl : c.loop? s with
  | none => rw [vacate_of_none hl]
  | some old =>
      obtain ⟨a, ha, hk, -⟩ := (hc.loop_iff s old).1 hl
      obtain ⟨bridges, he, hn, hm⟩ := retire_loop_eq hc ha hk
      rw [vacate_of_some hl]
      exact ⟨a, bridges, ha, he, hn, hm⟩

/-! ## Installing a loop -/

theorem site_eq_iff {e e' : EntryPoint} {k k' : Key} :
    e'.site k' = e.site k ↔ e'.id = e.id ∧ k'.Agrees k := by
  rw [Key.agrees_iff]
  simp [EntryPoint.site]

/-- What the installation of a loop under the key `k` changes, which takes the cache `c` to `c'`. -/
structure InstallsLoop (c c' : Cache) (e : EntryPoint) (k : Key) (g : Guards) (ops : List Op)
    (r : LoopInstall) : Prop where
  fresh : c.get? r.handle = none
  stored : c'.get? r.handle = some (newLoop r.handle (e.site k) g ops)
  /-- The loop is found under all equal keys, whatever the entry point is called. -/
  found : ∀ (e' : EntryPoint) (k' : Key), e'.id = e.id ∧ k'.Agrees k →
    c'.loop? (e'.site k') = some r.handle
  /-- Of other entry points, or under other keys, the same loop is found as before. -/
  others : ∀ (e' : EntryPoint) (k' : Key), ¬ (e'.id = e.id ∧ k'.Agrees k) →
    c'.loop? (e'.site k') = c.loop? (e'.site k')
  replaced : ∀ k' : Key, k'.Agrees k → c.Displaces (e.site k') r.replaced
  dead : ∀ h ∈ r.replaced, c'.isLive h = false

theorem installsLoop_addLoop (hc : c.Sound) (hg : g.firstStale? c.versions = none) (e : EntryPoint)
    (k : Key) (ops : List Op) :
    ∃ r, (c.addLoop (e.site k) g ops).2 = .ok r ∧
      InstallsLoop c (c.addLoop (e.site k) g ops).1 e k g ops r := by
  have hr := hc.register g
  obtain ⟨hw, -⟩ := without_vacate hr (e.site k)
  rw [addLoop_of_current hg]
  refine ⟨_, rfl, ?_⟩
  constructor
  case fresh => exact hc.get?_next
  case stored => rw [get?_putLoop, if_pos rfl]
  case found =>
    intro e' k' hk
    rw [loop?_putLoop, if_pos (site_eq_iff.2 hk)]
  case others =>
    intro e' k' hk
    have hne := mt site_eq_iff.1 hk
    rw [loop?_putLoop, if_neg hne, loop?_vacate hr, if_neg hne]
    rfl
  case replaced =>
    intro k' hk
    rw [Key.agrees_iff.1 hk]
    exact displaces_vacate hr (e.site k)
  case dead =>
    intro h hm
    have hne : h ≠ ⟨c.next⟩ := by
      rintro rfl
      obtain ⟨a, ha⟩ := hw.listed _ hm
      exact hc.ne_next ha rfl
    rw [isLive_eq_false_iff, get?_putLoop, if_neg hne]
    exact (hw.dead h).2 (Or.inl hm)

/-- The key has the shape that its entry point asks for, and all guards hold. -/
def Installable (shapes : Shapes) (c : Cache) (e : EntryPoint) (k : Key) (g : Guards) : Prop :=
  (∃ shapes', shapes.check e k = .ok shapes') ∧ ∀ v ∈ g.captured, c.versions.IsCurrent v

theorem installLoop_cases (hc : c.Sound) (shapes : Shapes) (e : EntryPoint) (k : Key) (g : Guards)
    (ops : List Op) :
    (Installable shapes c e k g ∧ ∃ r shapes' c',
        installLoop e k g ops (shapes, c) = .ok (.ok r) (shapes', c') ∧
          InstallsLoop c c' e k g ops r) ∨
      ¬ Installable shapes c e k g ∧ ∀ r s, installLoop e k g ops (shapes, c) ≠ .ok (.ok r) s := by
  unfold Installable
  rw [installLoop_eq, ← firstStale?_eq_none_iff]
  cases hk : shapes.check e k with
  | error f => exact Or.inr ⟨by simp, by simp⟩
  | ok shapes' =>
      cases hg : g.firstStale? c.versions with
      | none =>
          obtain ⟨r, hr, hi⟩ := installsLoop_addLoop hc hg e k ops
          exact Or.inl ⟨⟨⟨shapes', rfl⟩, rfl⟩, r, shapes', _, by rw [hr], hi⟩
      | some v =>
          refine Or.inr ⟨by simp, ?_⟩
          simp [addLoop_of_stale hg]

end Cache

/-! ## Loops along a history -/

namespace History

/-- The loops of a cache that has come about by `w`. -/
structure OneLoopPerKey (w : History) : Prop where
  /-- What is found is a live loop under its own entry point and key, and every such loop is. -/
  loop?_iff : ∀ s h, w.cache.loop? s = some h ↔
    ∃ a, w.cache.get? h = some a ∧ a.kind = .loop ∧ a.site = s ∧ a.handle = h
  site_unique : ∀ s s' h, w.cache.loop? s = some h → w.cache.loop? s' = some h → s = s'
  loop_unique : ∀ h h' a a', w.cache.get? h = some a → w.cache.get? h' = some a' →
    a.kind = .loop → a'.kind = .loop → a.site = a'.site → h = h'
  /-- Sites are equal if their entry points are and their keys agree. -/
  site_eq_iff : ∀ (e e' : EntryPoint) (k k' : Key),
    e'.site k' = e.site k ↔ e'.id = e.id ∧ k'.Agrees k
  installs_iff : ∀ e k g ops,
    (∃ r s, Cache.installLoop e k g ops (w.shapes, w.cache) = .ok (.ok r) s) ↔
      Cache.Installable w.shapes w.cache e k g
  installs : ∀ e k g ops r shapes c,
    Cache.installLoop e k g ops (w.shapes, w.cache) = .ok (.ok r) (shapes, c) →
      Cache.InstallsLoop w.cache c e k g ops r

/-- In all histories a key of an entry point has at most one live loop, which is found there, and
installing another one moves no loop of another key. -/
theorem run_oneLoopPerKey (table : Nat) (steps : List Step) :
    (run table steps).OneLoopPerKey := by
  have hc := (inv_run table steps).sound
  constructor
  case loop?_iff =>
    intro s h
    rw [hc.loop_iff]
    refine exists_congr fun a => and_congr_right fun ha => ?_
    rw [and_iff_left (hc.handle h a ha).1]
  case site_unique =>
    intro s s' h hs hs'
    obtain ⟨a, ha, -, rfl⟩ := (hc.loop_iff s h).1 hs
    obtain ⟨a', ha', -, rfl⟩ := (hc.loop_iff s' h).1 hs'
    rw [Option.some.inj (ha.symm.trans ha')]
  case loop_unique =>
    intro h h' a a' ha ha' hk hk' hs
    have hl := (hc.loop_iff a.site h).2 ⟨a, ha, hk, rfl⟩
    have hl' := (hc.loop_iff a.site h').2 ⟨a', ha', hk', hs.symm⟩
    exact Option.some.inj (hl.symm.trans hl')
  case site_eq_iff => exact fun e e' k k' => Cache.site_eq_iff
  case installs_iff =>
    intro e k g ops
    rcases Cache.installLoop_cases hc (run table steps).shapes e k g ops with
      ⟨hi, r, shapes, c, hr, -⟩ | ⟨hn, hr⟩
    · exact iff_of_true ⟨r, _, hr⟩ hi
    · exact iff_of_false (fun ⟨r, s, he⟩ => hr r s he) hn
  case installs =>
    intro e k g ops r shapes c he
    rcases Cache.installLoop_cases hc (run table steps).shapes e k g ops with
      ⟨-, r', shapes', c', hr, hi⟩ | ⟨-, hr⟩
    · rw [hr] at he
      cases he
      exact hi
    · exact absurd he (hr r _)

end History

end Code

end HotLoop
