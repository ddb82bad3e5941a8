import HotLoop.Proofs.Books
import HotLoop.Proofs.Carrying
import HotLoop.Proofs.Currency
import HotLoop.Proofs.Trust

/-!
# Tidy caches

While fields are written through the tracer alone, what the version table lists as dependents is
live, all guards are current, those of the open trace included, and a live bridge is known to its
loop. `Cache.Tidy` says so. It is kept by every operation of a frame and by the loop head, also when
an observer or the program breaks them off.
-/

namespace HotLoop

open Code Journal Lifecycle Trace Versions

namespace Code.Cache

/-- Nothing is stale, dead or displaced in the cache or in the trace that is open. -/
structure Tidy (c : Cache) (m : Mode) : Prop where
  sound : c.Sound
  current : c.Current
  living : ∀ l h, h ∈ c.versions.dependents l → ∃ a, c.get? h = some a
  rooted : ∀ h p i, c.HangsOff h p i → c.Knows p i h
  recorded : ∀ v, m.Guards v → c.versions.IsCurrent v
  /-- Nothing hangs off the guard that a bridge is traced for. -/
  vacant : ∀ p i r, m = .tracingBridge p i r → ∀ h, ¬ c.Knows p i h

variable {c c' : Cache} {m m' : Mode}

/-! ## Storing -/

/-- What depended on anything is live behind a step that stores what was pending. -/
theorem Stores.living {h : Handle} {n : Artifact} (hs : c.Stores c' h n)
    (hl : ∀ l d, d ∈ c.versions.dependents l → d = h ∨ d ≠ h ∧ ∃ a, c.get? d = some a)
    (l : Location) (d : Handle) (hd : d ∈ c'.versions.dependents l) : ∃ a, c'.get? d = some a := by
  rw [hs.versions] at hd
  rcases hl l d hd with rfl | ⟨hne, a, ha⟩
  · exact ⟨n, hs.stored⟩
  · obtain ⟨a', ha', -⟩ := hs.kept d a hne ha
    exact ⟨a', ha'⟩

namespace Tidy

theorem empty (table : Nat) : Tidy { versions := { table := table } } .interpreting where
  sound := sound_empty table
  current := current_empty table
  living := fun l h hh => by cases hh
  rooted := fun h p i hh => by
    obtain ⟨a, ha, -⟩ := hh
    cases ha
  recorded := fun v hv => absurd hv (Mode.not_guards_of_recording? rfl v)
  vacant := fun p i r hm => by cases hm

/-! ## Modes -/

theorem turn (h : c.Tidy m) (hg : ∀ v, ¬ m'.Guards v)
    (hv : ∀ p i r, m' = .tracingBridge p i r → ∀ h, ¬ c.Knows p i h) : c.Tidy m' :=
  ⟨h.sound, h.current, h.living, h.rooted, fun v hm => absurd hm (hg v), hv⟩

theorem of_recording? (h : c.Tidy m) (hm : m'.recording? = none) : c.Tidy m' := by
  apply h.turn (Mode.not_guards_of_recording? hm)
  rintro p i r rfl
  cases hm

theorem interpreting (h : c.Tidy m) : c.Tidy .interpreting := h.of_recording? rfl

theorem modifyRecording (h : c.Tidy m) {g : Recording → Recording}
    (hg : ∀ r, m.recording? = some r → ∀ v ∈ (g r).guards.captured, c.versions.IsCurrent v) :
    c.Tidy (m.modifyRecording g) := by
  refine ⟨h.sound, h.current, h.living, h.rooted, ?_, ?_⟩
  · rintro v ⟨r', hr', hv⟩
    rw [Mode.recording?_modifyRecording] at hr'
    obtain ⟨r, hr, rfl⟩ := Option.map_eq_some_iff.1 hr'
    exact hg r hr v hv
  · intro p i r' hr'
    obtain ⟨r, rfl⟩ := Mode.of_modifyRecording_eq hr'
    exact h.vacant p i r rfl

theorem record (h : c.Tidy m) {g : Recording → Recording}
    (hg : ∀ r, (g r).guards = r.guards) : c.Tidy (m.modifyRecording g) := by
  apply h.modifyRecording
  intro r hr v hv
  rw [hg r] at hv
  exact h.recorded v ⟨r, hr, hv⟩

/-! ## Versions and retiring -/

theorem read (h : c.Tidy m) (l : Location) :
    Tidy { c with versions := (c.versions.read l).1 } m where
  sound := h.sound.read l
  current := h.current.read h.sound l
  living := fun j d hd => by
    rw [dependents_read] at hd
    exact h.living j d hd
  rooted := h.rooted
  recorded := fun v hv =>
    ((issued_of_isCurrent (h.recorded v hv)).isCurrent_read_iff l).2 (h.recorded v hv)
  vacant := h.vacant

theorem entered (h : c.Tidy m) (j : Handle) :
    Tidy { c with artifacts := c.artifacts.modify j Artifact.entered } m where
  sound := h.sound.entered j
  current := fun k a' ha' => by
    obtain ⟨a, n, ha, rfl⟩ := of_get?_entered ha'
    exact h.current k a ha
  living := fun l d hd => by
    obtain ⟨a, ha⟩ := h.living l d hd
    obtain ⟨n, ha'⟩ := get?_entered_of_some ha j
    exact ⟨_, ha'⟩
  rooted := fun b p i hb =>
    (knows_entered_iff j).2 (h.rooted b p i ((hangsOff_entered_iff j).1 hb))
  recorded := h.recorded
  vacant := fun p i r hm b hk => h.vacant p i r hm b ((knows_entered_iff j).1 hk)

/-- Entry checks do not fail in a tidy cache. -/
theorem enter (h : c.Tidy m) (j : Handle) : (c.enter j).1.Tidy m := by
  rcases enter_cases c j with ⟨-, he⟩ | ⟨a, -, -, he⟩ | ⟨a, v, ha, hg, -⟩
  · rw [he]
    exact h
  · rw [he]
    exact h.entered j
  · rw [h.current.firstStale? ha] at hg
    cases hg

/-- A write that revokes a version, with the retirement of what depended on it. The open trace must
not guard the location any more. -/
theorem revoke (h : c.Tidy m) {l : Location} {t : Versions} {i : Invalidation}
    (hi : c.versions.invalidate? l = some (t, i)) (hg : ∀ v, m'.Guards v → m.Guards v)
    (hl : ∀ v, m'.Guards v → v.location ≠ l)
    (hv : ∀ p k r, m' = .tracingBridge p k r → ∃ r', m = .tracingBridge p k r') :
    (retireAll { c with versions := t } i.dependents).1.Tidy m' := by
  have hc : Sound { c with versions := t } := h.sound.invalidate hi
  have hw := without_retireAll i.dependents hc
  constructor
  case sound => exact hw.sound hc
  case current => exact h.current.revoke h.sound hi
  case living =>
    intro j d hd
    obtain ⟨hd, hm⟩ := (hw.dependents j d).1 hd
    have hd : d ∈ t.dependents j := hd
    rw [(invalidate?_spec hi).2.2.2.2.2.2] at hd
    split_ifs at hd
    · cases hd
    · obtain ⟨a, ha⟩ := h.living j d hd
      obtain ⟨a', ha', -⟩ := hw.kept ha hm
      exact ⟨a', ha'⟩
  case rooted =>
    intro b p k hb
    obtain ⟨hb, hm⟩ := hw.hangsOff_iff.1 hb
    exact (knows_retireAll_iff hc _).2 ⟨h.rooted b p k hb, hm⟩
  case recorded =>
    intro v hv
    have hcur := h.recorded v (hg v hv)
    rw [hw.versions.isCurrent_iff,
      (issued_of_isCurrent hcur).isCurrent_invalidate_iff h.sound.versions hi]
    exact ⟨hcur, hl v hv⟩
  case vacant =>
    intro p k r hm b hk
    obtain ⟨r', hr'⟩ := hv p k r hm
    exact h.vacant p k r' hr' b (hw.knows hk).1

/-! ## Installing -/

/-- With current guards, the new handle alone is listed and not live yet. -/
theorem living_register (h : c.Tidy m) {g : Guards} {l : Location} {d : Handle}
    (hd : d ∈ (c.register g).1.versions.dependents l) :
    d = ⟨c.next⟩ ∨ d ≠ ⟨c.next⟩ ∧ ∃ a, c.get? d = some a := by
  rcases ((register_spec c g).2.2.2.1 l d).1 hd with hd | ⟨hd, -⟩
  · obtain ⟨a, ha⟩ := h.living l d hd
    exact Or.inr ⟨h.sound.ne_next ha, a, ha⟩
  · exact Or.inl hd

theorem addLoop (h : c.Tidy m) {g : Guards} (hg : ∀ v ∈ g.captured, c.versions.IsCurrent v)
    (s : Site) (ops : List Op) : (c.addLoop s g ops).1.Tidy .interpreting := by
  have hstale := (firstStale?_eq_none_iff g c.versions).2 hg
  have hcr := h.sound.register g
  obtain ⟨hw, hs⟩ := without_vacate hcr s
  have hp := (h.sound.pending_register hstale).without hw
  have hstores : Stores _ (putLoop _ ⟨c.next⟩ s g ops) _ _ := stores_putLoop hs
  have hsound := h.sound.addLoop s g ops
  have hcurrent := h.current.install (sameVersions_addLoop h.sound s g ops) hg
    fun _ _ ha' => live_addLoop h.sound ha'
  rw [addLoop_of_current hstale] at hsound hcurrent ⊢
  constructor
  case sound => exact hsound
  case current => exact hcurrent
  case living =>
    refine hstores.living fun l d hd => ?_
    obtain ⟨hd, hm⟩ := (hw.dependents l d).1 hd
    rcases h.living_register hd with hnew | ⟨hne, a, ha⟩
    · exact Or.inl hnew
    · obtain ⟨a', ha', -⟩ := hw.kept (h := d) ha hm
      exact Or.inr ⟨hne, a', ha'⟩
  case rooted =>
    intro b p i hb
    rw [hangsOff_putLoop_iff hp.dead] at hb
    obtain ⟨hb, hm⟩ := hw.hangsOff_iff.1 hb
    have hk : (c.register g).1.Knows p i b := h.rooted b p i hb
    rw [vacate_eq_retireAll] at hm
    rw [knows_putLoop_iff hp.dead, vacate_eq_retireAll, knows_retireAll_iff hcr]
    exact ⟨hk, hm⟩
  case recorded => exact fun v hv => absurd hv (Mode.not_guards_of_recording? rfl v)
  case vacant => exact fun p i r hm => by cases hm

theorem addBridge (h : c.Tidy m) {p : Handle} {i : Nat} {a : Artifact} (ha : c.get? p = some a)
    (hk : a.kind = .loop) (hv : ∀ b, ¬ c.Knows p i b) {g : Guards}
    (hg : ∀ v ∈ g.captured, c.versions.IsCurrent v) (ops : List Op) :
    (c.addBridge p a.site i g ops).1.Tidy .interpreting := by
  have hstale := (firstStale?_eq_none_iff g c.versions).2 hg
  have hd : (c.register g).1.get? ⟨c.next⟩ = none := h.sound.get?_next
  have hp : (c.register g).1.get? p = some a := ha
  have hstores : Stores _ (putBridge _ ⟨c.next⟩ p a.site i g ops) _ _ := stores_putBridge hp hk
  have hsound := h.sound.addBridge ha hk i g ops
  have hcurrent := h.current.install (sameVersions_addBridge c p a.site i g ops) hg
    fun _ _ ha' => live_addBridge ha'
  rw [addBridge_of_current hstale] at hsound hcurrent ⊢
  constructor
  case sound => exact hsound
  case current => exact hcurrent
  case living => exact hstores.living fun l d hd => h.living_register hd
  case rooted =>
    intro b q k hb
    rw [hangsOff_putBridge_iff] at hb
    rw [knows_putBridge_iff hd hp]
    split_ifs at hb with hnew
    · rw [if_pos hb]
      exact hnew
    · have hknows := h.rooted b q k hb
      rw [if_neg]
      · exact hknows
      · rintro ⟨rfl, rfl⟩
        exact hv b hknows
  case recorded => exact fun v hv => absurd hv (Mode.not_guards_of_recording? rfl v)
  case vacant => exact fun p i r hm => by cases hm

end Tidy

end Code.Cache

end HotLoop
