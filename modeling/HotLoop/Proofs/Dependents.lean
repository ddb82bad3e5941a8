import HotLoop.Proofs.Running
import HotLoop.Proofs.Upkeep

/-!
# Exact dependents

If a client writes fields through the tracer alone, the version table lists for each location just
the live artifacts that guard it, at every moment of its runs and between its calls. So a write to a
quasi-immutable field retires what it must and nothing else: the artifacts with a guard on the field
and the bridges of the loops among them. A write that is refused changes neither heap nor code.
-/

namespace HotLoop

open Code Versions

namespace Code.Cache

/-- The dependents of each location are the live artifacts with a guard on it, listed once. -/
structure DependentsExact (c : Cache) : Prop where
  nodup : ∀ l, (c.versions.dependents l).Nodup
  mem_iff : ∀ l h, h ∈ c.versions.dependents l ↔ ∃ a, c.get? h = some a ∧ a.guards.Covers l

/-- The artifact `h` is live and has a guard on `l`, or it is a bridge of a live loop that has. -/
def RestsOn (c : Cache) (h : Handle) (l : Location) : Prop :=
  ∃ a, c.get? h = some a ∧ (a.guards.Covers l ∨
    ∃ p i pa, a.kind = .bridge p i ∧ c.get? p = some pa ∧ pa.guards.Covers l)

/-- The cache `c'` is `c` after the retirement of all that rests on `l`, which are the artifacts
`gone`. The others are live with their records; a loop has forgotten those of its bridges that
went. -/
structure Retires (c c' : Cache) (l : Location) (gone : List Handle) : Prop where
  nodup : gone.Nodup
  mem_iff : ∀ h, h ∈ gone ↔ c.RestsOn h l
  dead : ∀ h ∈ gone, c'.get? h = none
  kept : ∀ h a, c.get? h = some a → h ∉ gone → ∃ a', c'.get? h = some a' ∧ a.Loses a' gone
  old : ∀ h a', c'.get? h = some a' → ∃ a, c.get? h = some a
  retiredCount : c'.retiredCount = c.retiredCount + gone.length

variable {c : Cache} {m : Mode} {l : Location}

namespace Tidy

theorem dependentsExact (h : c.Tidy m) : c.DependentsExact where
  nodup := h.sound.versions.nodup
  mem_iff := fun l j => by
    constructor
    · intro hj
      obtain ⟨a, ha⟩ := h.living l j hj
      exact ⟨a, ha, List.mem_map.2 (h.sound.captured_of_dependent ha hj)⟩
    · rintro ⟨a, ha, hcover⟩
      obtain ⟨v, hv, rfl⟩ := List.mem_map.1 hcover
      exact h.sound.registered j a ha v hv (h.current j a ha v hv)

/-- A bridge is known to its loop, so it goes just if its loop is among the dependents. -/
theorem restsOn_iff (h : c.Tidy m) {j : Handle} :
    c.RestsOn j l ↔ ∃ a, c.get? j = some a ∧
      (j ∈ c.versions.dependents l ∨ ∃ p ∈ c.versions.dependents l, ∃ i, c.Knows p i j) := by
  have hdep := h.dependentsExact.mem_iff l
  constructor
  · rintro ⟨a, ha, hcover | ⟨p, i, pa, hk, hpa, hcover⟩⟩
    · exact ⟨a, ha, Or.inl ((hdep j).2 ⟨a, ha, hcover⟩)⟩
    · refine ⟨a, ha, Or.inr ⟨p, (hdep p).2 ⟨pa, hpa, hcover⟩, i, ?_⟩⟩
      exact h.rooted j p i ⟨a, ha, hk⟩
  · rintro ⟨a, ha, hj | ⟨p, hp, i, hk⟩⟩
    · obtain ⟨a', ha', hcover⟩ := (hdep j).1 hj
      exact ⟨a', ha', Or.inl hcover⟩
    · obtain ⟨pa, hpa, hcover⟩ := (hdep p).1 hp
      obtain ⟨b, hb, hkind⟩ := (h.sound.of_knows hk).2
      exact ⟨b, hb, Or.inr ⟨p, i, pa, hkind, hpa, hcover⟩⟩

theorem retires_revoke (h : c.Tidy m) {t : Versions} {i : Invalidation}
    (hi : c.versions.invalidate? l = some (t, i)) :
    c.Retires (retireAll { c with versions := t } i.dependents).1 l
      (retireAll { c with versions := t } i.dependents).2 := by
  have hc : Sound { c with versions := t } := h.sound.invalidate hi
  have hw := without_retireAll i.dependents hc
  have hx := exchanges_retireAll i.dependents { c with versions := t }
  constructor
  case nodup =>
    apply hx.nodup
    rw [List.append_nil]
    exact c.artifacts.nodup_keys
  case mem_iff =>
    intro j
    rw [h.restsOn_iff, mem_retireAll_iff hc, (invalidate?_spec hi).2.2.1]
    rfl
  case dead => exact fun j hj => (hw.dead j).2 (Or.inl hj)
  case kept => exact fun j a ha hj => hw.kept ha hj
  case old =>
    intro j a' ha'
    obtain ⟨a, ha, -⟩ := hw.live j a' ha'
    exact ⟨a, ha⟩
  case retiredCount => exact hx.retiredCount

/-- Nothing rests on a location that has no version. -/
theorem retires_untracked (h : c.Tidy m) (hn : c.versions.current? l = none) :
    c.Retires c l [] where
  nodup := List.nodup_nil
  mem_iff := fun j => by
    have hcover : ∀ k a, c.get? k = some a → ¬ a.guards.Covers l := by
      intro k a ha hcover
      obtain ⟨v, hv, rfl⟩ := List.mem_map.1 hcover
      have hcur : c.versions.current? v.location = some v := h.current k a ha v hv
      rw [hn] at hcur
      cases hcur
    refine iff_of_false List.not_mem_nil ?_
    rintro ⟨a, ha, hguard | ⟨p, i, pa, -, hpa, hguard⟩⟩
    · exact hcover j a ha hguard
    · exact hcover p pa hpa hguard
  dead := List.forall_mem_nil _
  kept := fun j a ha _ => ⟨a, ha, Artifact.loses_self fun _ _ _ => List.not_mem_nil⟩
  old := fun j a' ha' => ⟨a', ha'⟩
  retiredCount := rfl

end Tidy

end Code.Cache

/-! ## Writes -/

/-- What a write to `l` has done to a tracer, by its answer. -/
def Tracer.Writes (l : Location) (t t' : Tracer) : Except Error Unit → Prop
  | .ok _ => t.heap.isQuasi l = .ok true → ∃ gone, t.cache.Retires t'.cache l gone
  | .error _ => t'.heap = t.heap ∧ t'.cache = t.cache

variable {t : Tracer} {f : Frame} {l : Location}

theorem Frame.writes_storeField (value : Int) (h : f.Tidy) :
    Ends (fun r f' => Tracer.Writes l f.tracer f'.tracer r) (fun _ _ => True)
      (storeField l value f) := by
  refine ends_storeField (fun _ _ => ⟨rfl, rfl⟩) (fun t hw hq => ?_) fun t i hw => ?_
  · obtain ⟨versions, hs, -⟩ := Tracer.write_eq_ok hw
    rcases Heap.revoke_set hs with ⟨i, hi, -⟩ | ⟨-, -, hn⟩
    · cases hi
    · dsimp only
      rw [Tracer.cache_of_write hw]
      exact ⟨[], Cache.Tidy.retires_untracked h (hn hq)⟩
  · obtain ⟨versions, hi, hcache⟩ := Tracer.revoke_of_write hw
    have hafter := cache_afterRevocation i { f with tracer := t }
    refine hafter.imp (fun _ f' hf' _ => ?_) fun _ _ _ => trivial
    rw [hf', hcache]
    exact ⟨_, Cache.Tidy.retires_revoke h hi⟩

/-- Recording the write comes first, and it touches neither heap nor cache. -/
theorem Frame.writes_setField (value : Int) (h : f.Tidy) :
    Ends (fun r f' => Tracer.Writes l f.tracer f'.tracer r) (fun _ _ => True)
      (setField l value f) := by
  have hrecord := within_record (.setField l) f
  have htidy := tidies_record (.setField l) h
  rw [setField_eq]
  apply Ends.bind
  cases hr : record (.setField l) f with
  | error e f₁ => trivial
  | ok _ f₁ =>
      rw [hr] at hrecord htidy
      have hstore := writes_storeField (l := l) value htidy
      unfold Tracer.Writes at hstore ⊢
      rw [hrecord.1.heap, hrecord.1.cache] at hstore
      exact hstore

theorem Tracer.tidy_setField (h : t.Tidy .interpreting) (value : Int) :
    ((Call.setField l value).perform t).Tidy .interpreting ∧
      Writes l t ((Call.setField l value).perform t)
        ((t.setField l value).map fun _ => ()) := by
  simp only [Call.perform, setField]
  cases hw : t.write l value with
  | error e => exact ⟨h, rfl, rfl⟩
  | ok p =>
      obtain ⟨t', i⟩ := p
      obtain ⟨versions, hs, hcache, -⟩ := write_eq_ok hw
      rcases Heap.revoke_set hs with ⟨inv, rfl, -, hi⟩ | ⟨rfl, rfl, hn⟩
      · have hsame := sameCode_forgetAll (t'.retireDependents inv).1 (t'.retireDependents inv).2
        have hret : ((t'.retireDependents inv).1.forgetAll (t'.retireDependents inv).2).cache =
            (Cache.retireAll { t.cache with versions := versions } inv.dependents).1 := by
          rw [hsame.cache, ← hcache]
          rfl
        change Tidy ((t'.retireDependents inv).1.forgetAll (t'.retireDependents inv).2) _ ∧
          Writes l t ((t'.retireDependents inv).1.forgetAll (t'.retireDependents inv).2) (.ok ())
        unfold Tidy Writes
        rw [hret]
        refine ⟨?_, fun _ => ⟨_, Cache.Tidy.retires_revoke h hi⟩⟩
        have hnone : ∀ v, ¬ Mode.Guards .interpreting v := Mode.not_guards_of_recording? rfl
        exact Cache.Tidy.revoke h hi (fun _ hv => hv) (fun v hv => absurd hv (hnone v))
          fun p k r hm => by cases hm
      · change Tidy t' _ ∧ Writes l t t' (.ok ())
        unfold Tidy Writes
        rw [hcache]
        exact ⟨h, fun hq => ⟨[], Cache.Tidy.retires_untracked h (hn hq)⟩⟩

/-! ## Clients -/

theorem Call.tidy_perform {c : Call} (hc : ∀ l value, c ≠ .write l value)
    (h : t.Tidy .interpreting) : (c.perform t).Tidy .interpreting := by
  cases c with
  | run p s => exact perform_run_meets Tracer.invariant_tidy p s h
  | setField l value => exact (Tracer.tidy_setField h value).1
  | write l value => exact absurd rfl (hc l value)
  | alloc cls values =>
      simp only [perform]
      cases t.heap.alloc cls values with
      | error e => exact h
      | ok p => exact h
  | addObserver o => exact h

/-- With a client that does not write beside the tracer, dependents are exact at every moment and
between all calls, and every write, made in a frame or from outside, retires just what rests on its
location, or fails and changes nothing. -/
theorem dependents_exact (settings : Settings) (cs : List Call)
    (hcs : ∀ l value, Call.write l value ∉ cs) :
    (∀ f ∈ moments cs { settings := settings }, f.tracer.cache.DependentsExact ∧
        ∀ l value r f', Frame.setField l value f = .ok r f' →
          Tracer.Writes l f.tracer f'.tracer r) ∧
      ∀ past, past <+: cs →
        let t := past.foldl (fun t c => c.perform t) ({ settings := settings } : Tracer)
        t.cache.DependentsExact ∧ ∀ l value, Tracer.Writes l t ((Call.setField l value).perform t)
          ((t.setField l value).map fun _ => ()) := by
  have hnew : Tracer.Tidy { settings := settings } .interpreting := Cache.Tidy.empty 0
  have hcalls : ∀ c ∈ cs, ∀ t : Tracer, t.Tidy .interpreting → (c.perform t).Tidy .interpreting :=
    fun c hc t h => Call.tidy_perform (fun l value he => hcs l value (he ▸ hc)) h
  obtain ⟨hms, hpasts⟩ := Tracer.invariant_tidy.calls hcalls hnew
  constructor
  · intro f hf
    have htidy := hms f hf
    refine ⟨Cache.Tidy.dependentsExact htidy, fun l value r f' hr => ?_⟩
    have hwrites := Frame.writes_setField (l := l) value htidy
    rw [hr] at hwrites
    exact hwrites
  · intro past hpast
    have htidy := hpasts past hpast
    exact ⟨Cache.Tidy.dependentsExact htidy, fun l value => (Tracer.tidy_setField htidy value).2⟩

def weighted : Tracer :=
  weightedSum.foldl (fun t c => c.perform t) { settings := { threshold := 1 } }

/-- The weight is written from outside, and the loop goes. -/
theorem dependents_exact_weighted :
    weighted.cache.DependentsExact ∧
      weighted.cache.versions.dependents ⟨⟨0⟩, "scale"⟩ = [⟨1⟩] ∧
      ((Call.setField ⟨⟨0⟩, "scale"⟩ 5).perform weighted).cache.isLive ⟨1⟩ = false ∧
      ∃ gone, weighted.cache.Retires ((Call.setField ⟨⟨0⟩, "scale"⟩ 5).perform weighted).cache
        ⟨⟨0⟩, "scale"⟩ gone := by
  have hcs : ∀ l value, Call.write l value ∉ weightedSum := by
    intro l value hm
    simp [weightedSum] at hm
  have hrun := (dependents_exact { threshold := 1 } weightedSum hcs).2 weightedSum
    (List.prefix_refl _)
  have he : weightedSum.foldl (fun t c => c.perform t) { settings := { threshold := 1 } } =
    weighted := rfl
  rw [he] at hrun
  have hok : (weighted.setField ⟨⟨0⟩, "scale"⟩ 5).isOk = true := by decide +kernel
  have hquasi : (weighted.heap.isQuasi ⟨⟨0⟩, "scale"⟩).toOption = some true := by decide +kernel
  have hdep : weighted.cache.versions.dependents ⟨⟨0⟩, "scale"⟩ = [⟨1⟩] := by decide +kernel
  have hlive : ((Call.setField ⟨⟨0⟩, "scale"⟩ 5).perform weighted).cache.isLive ⟨1⟩ = false := by
    decide +kernel
  generalize weighted = t at hrun hok hquasi hdep hlive ⊢
  obtain ⟨hexact, hwrites⟩ := hrun
  refine ⟨hexact, hdep, hlive, ?_⟩
  have hwrite := hwrites ⟨⟨0⟩, "scale"⟩ 5
  cases hr : t.setField ⟨⟨0⟩, "scale"⟩ 5 with
  | error e =>
      rw [hr] at hok
      cases hok
  | ok t' =>
      rw [hr] at hwrite
      cases hq : t.heap.isQuasi ⟨⟨0⟩, "scale"⟩ with
      | error e =>
          rw [hq] at hquasi
          cases hquasi
      | ok q =>
          rw [hq] at hquasi
          exact hwrite (hq.trans (congrArg Except.ok (Option.some.inj hquasi)))

end HotLoop
