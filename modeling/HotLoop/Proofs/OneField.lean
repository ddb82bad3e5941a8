import HotLoop.Proofs.Branches
import HotLoop.Proofs.Stretches

/-!
# One quasi-immutable field

Programs that work on one quasi-immutable field have a version table of one location. While
observers never fail, a read in a trace is folded into a guarded constant, and a write revokes the
version and gives up the trace that captured it. As for loop heads, the outcomes are exact but for
the journal.
-/

namespace HotLoop

open Code Journal Lifecycle Trace

def objectKey (o : ObjectId) : Key := ⟨[.ref o]⟩

/-! ## Tables of one location -/

namespace Versions

def lone (l : Location) (n : Nat) (ds : List Handle) : Versions where
  slots := (∅ : FinMap Location Slot).insert l ⟨n + 1, ds⟩
  next := n + 2
  invalidations := n

def revoked (l : Location) : Nat → Versions
  | 0 => {}
  | n + 1 => lone l (n + 1) []

section

variable (l : Location) (n : Nat) (ds : List Handle) (h : Handle)

theorem find?_lone : (lone l n ds).slots.find? l = some ⟨n + 1, ds⟩ :=
  FinMap.find?_insert_self _ l _

theorem current?_lone : (lone l n ds).current? l = some ⟨0, l, n + 1⟩ :=
  congrArg (Option.map _) (find?_lone l n ds)

theorem read_revoked : (revoked l n).read l = (lone l n [], ⟨0, l, n + 1⟩) := by
  cases n with
  | zero => rfl
  | succ n => exact read_eq_of_tracked (current?_lone l (n + 1) [])

theorem invalidations_revoked : (revoked l n).invalidations = n := by cases n <;> rfl

theorem tracked_revoked : (revoked l n).tracked = if n = 0 then 0 else 1 := by cases n <;> rfl

theorem invalidate?_lone : (lone l n ds).invalidate? l =
    some (revoked l (n + 1), ⟨⟨0, l, n + 1⟩, n + 2, ds⟩) := by
  rw [invalidate?, find?_lone]
  refine congrArg some (congrArg (·, _) ?_)
  simp only [revoked, lone, FinMap.insert_insert]

theorem dependents_lone : (lone l n ds).dependents l = ds :=
  congrArg (fun s : Option Slot => (s.map Slot.dependents).getD []) (find?_lone l n ds)

theorem registerAll_lone :
    (lone l n []).registerAll h [⟨0, l, n + 1⟩] = (lone l n [h], .ok ()) := by
  have hregister : (lone l n []).register? ⟨0, l, n + 1⟩ h = some (lone l n [h]) := by
    refine (if_pos (current?_lone l n [])).trans (congrArg some ?_)
    simp only [lone, FinMap.modify_insert]
    rfl
  rw [registerAll, hregister]
  rfl

theorem release_lone (v : Version) (hv : v.location = l) :
    (lone l n []).release h [v] = lone l n [] := by
  have hnone : (lone l n []).unregister? v h = none := by
    refine if_neg ?_
    rw [hv, dependents_lone]
    exact List.not_mem_nil
  simp only [release, List.foldl_cons, List.foldl_nil, hnone, Option.getD_none]

end

end Versions

def Guards.lone (v : Version) : Guards := ⟨[v], List.nodup_singleton _⟩

theorem Guards.push?_empty (v : Version) : (∅ : Guards).push? v = some (lone v) := rfl

/-! ## Objects of one field -/

namespace ObjectClass

def declares (name field spec : String) : Bool :=
  (make name [field] [spec]).toOption.any fun c =>
    decide (field ∈ c.fields ∧ c.declared.IsQuasi field)

theorem exists_make {name field spec : String} (h : declares name field spec = true) :
    ∃ c, make name [field] [spec] = .ok c ∧ field ∈ c.fields ∧ c.declared.IsQuasi field := by
  unfold declares at h
  cases hm : make name [field] [spec] with
  | error e =>
      rw [hm] at h
      cases h
  | ok c =>
      rw [hm] at h
      exact ⟨c, rfl, of_decide_eq_true h⟩

end ObjectClass

namespace Heap

structure Has (l : Location) (x : Int) (h : Heap) : Prop where
  get : h.get l = .ok x
  quasi : h.isQuasi l = .ok true

theorem exists_alloc {c : ObjectClass} {field : String} (hf : field ∈ c.fields)
    (hq : c.declared.IsQuasi field) (x : Int) :
    ∃ h, ({} : Heap).alloc c [(field, x)] = .ok (h, ⟨0⟩) ∧ h.Has ⟨⟨0⟩, field⟩ x := by
  let o : Object := ⟨c, (∅ : FinMap String Int).insert field x⟩
  have hset : Object.setAll ⟨c, ∅⟩ [(field, x)] = .ok o := by
    simp [Object.setAll, Object.set, hf, o]
  have hget : o.get field = .ok x := by
    rw [Object.get, if_pos hf]
    exact congrArg Except.ok (FinMap.findD_insert_self _ _ _ _)
  refine ⟨⟨[o]⟩, ?_, hget, congrArg Except.ok (decide_eq_true hq)⟩
  rw [alloc, hset]
  rfl

/-- The first object of a class of one quasi-immutable field. -/
theorem exists_make_alloc {name field spec : String}
    (h : ObjectClass.declares name field spec = true) (x : Int) :
    ∃ c h, ObjectClass.make name [field] [spec] = .ok c ∧
      ({} : Heap).alloc c [(field, x)] = .ok (h, ⟨0⟩) ∧ h.Has ⟨⟨0⟩, field⟩ x := by
  obtain ⟨c, hmake, hf, hq⟩ := ObjectClass.exists_make h
  obtain ⟨h, halloc, hhas⟩ := exists_alloc hf hq x
  exact ⟨c, h, hmake, halloc, hhas⟩

variable {h : Heap} {t : Versions} {l : Location} {x : Int}

theorem exists_set (hx : h.get l = .ok x) (t : Versions) (value : Int) :
    ∃ h' t' i, h.set t l value = .ok (h', t', i) ∧ h'.get l = .ok value ∧
      h'.isQuasi l = h.isQuasi l := by
  cases hs : h.set t l value with
  | error e =>
      rw [set_eq_error_iff, hx] at hs
      cases hs
  | ok r =>
      obtain ⟨h', t', i⟩ := r
      exact ⟨h', t', i, rfl, (get_set hs l).trans (if_pos rfl), isQuasi_set hs l⟩

end Heap

/-! ## Writes -/

namespace Tracer

variable {t : Tracer} {l : Location} {x : Int}

theorem write_untracked (h : t.heap.Has l x) (hl : t.cache.versions.current? l = none)
    (value : Int) :
    ∃ t' heap js, t.write l value = .ok (t', none) ∧ t'.heap.Has l value ∧
      t' = { t with heap := heap, journal := js } := by
  obtain ⟨heap, vs, i, hs, hget, hquasi⟩ := Heap.exists_set h.get t.cache.versions value
  rcases Heap.revoke_set hs with ⟨inv, -, -, hinv⟩ | ⟨rfl, rfl, -⟩
  · rw [(Versions.invalidate?_eq_none_iff _ _).2 hl] at hinv
    cases hinv
  · rw [write, hs]
    exact ⟨_, heap, _, rfl, ⟨hget, hquasi.trans h.quasi⟩, rfl⟩

theorem write_tracked (h : t.heap.Has l x) {vs : Versions} {i : Invalidation}
    (hi : t.cache.versions.invalidate? l = some (vs, i)) (value : Int) :
    ∃ t' heap js, t.write l value = .ok (t', some i) ∧ t'.heap.Has l value ∧
      t' = { t with heap := heap, cache := { t.cache with versions := vs }, journal := js } := by
  obtain ⟨heap, vs', i', hs, hget, hquasi⟩ := Heap.exists_set h.get t.cache.versions value
  rcases Heap.revoke_set hs with ⟨inv, rfl, -, hinv⟩ | ⟨-, -, hnone⟩
  · rw [hi] at hinv
    obtain ⟨rfl, rfl⟩ := Prod.mk.inj (Option.some.inj hinv)
    rw [write, hs]
    exact ⟨_, heap, _, rfl, ⟨hget, hquasi.trans h.quasi⟩, rfl⟩
  · rw [(Versions.invalidate?_eq_none_iff _ _).2 (hnone h.quasi)] at hi
    cases hi

end Tracer

/-! ## Operations of a frame -/

namespace Frame

variable {f : Frame} {t : Tracer} {e : EntryPoint} {r : Recording} {l : Location} {x value : Int}
  {i : Invalidation} {vs : Versions}

theorem getField_of_get (hm : f.mode.recording? = none) (hx : f.tracer.heap.get l = .ok x) :
    getField l f = .ok (.ok x) f := by
  rw [getField_eq, hx, hm]
  rfl

theorem record_of_room {op : Op} (hr : f.mode.recording? = some r)
    (hroom : r.ops.length < f.tracer.settings.traceLimit) :
    record op f = .ok () (f.recorded op) := by
  rw [record_eq, hr]
  exact if_neg (Nat.not_lt.2 hroom)

theorem getField_of_recordRead {f' : Frame} (ho : f.mode.recording?.isSome = true)
    (hx : f.tracer.heap.get l = .ok x) (hr : recordRead l f = .ok () f') :
    getField l f = .ok (.ok x) f' := by
  rw [getField_eq, hx]
  dsimp only
  rw [if_pos ho]
  simp only [bind, EStateM.bind, hr]
  rfl

/-- The first read of the field in a trace becomes a constant with a guard. -/
theorem getField_folded {v : Version} (h : t.heap.Has l x)
    (hfold : t.settings.foldFields = true) (hread : t.cache.versions.read l = (vs, v))
    (hguards : r.guards = ∅) (hroom : r.ops.length + 2 ≤ t.settings.traceLimit) :
    ∃ js, getField l ⟨t, .tracingLoop r, e⟩ = .ok (.ok x)
      ⟨{ t with cache := { t.cache with versions := vs }, journal := js },
        .tracingLoop { r with
          ops := r.ops ++ [.foldedField l, .guardVersion l]
          guards := .lone v }, e⟩ := by
  let f₁ : Frame := ⟨(t.capture l).1, .tracingLoop { r with guards := .lone v }, e⟩
  have hcapture : (t.capture l).2 = v := by rw [Tracer.capture, hread]
  have hguard : guardField l ⟨t, .tracingLoop r, e⟩ = (f₁, true) := by
    have hpush : r.guards.push? (t.capture l).2 = some (.lone v) := by
      rw [hguards, hcapture, Guards.push?_empty]
    rw [guardField]
    dsimp only [Mode.recording?, Option.bind_some]
    rw [hpush]
    rfl
  have hroom₁ : r.ops.length < t.settings.traceLimit := by omega
  have hroom₂ : (r.ops ++ [Op.foldedField l]).length < t.settings.traceLimit := by
    rw [List.length_append]
    exact hroom
  have hfolded : record (.foldedField l) f₁ = .ok () (f₁.recorded (.foldedField l)) :=
    record_of_room (r := { r with guards := .lone v }) rfl hroom₁
  have hversion : record (.guardVersion l) (f₁.recorded (.foldedField l)) =
      .ok () ((f₁.recorded (.foldedField l)).recorded (.guardVersion l)) :=
    record_of_room (r := { r with ops := r.ops ++ [.foldedField l], guards := .lone v }) rfl hroom₂
  have hquasi : (t.settings.foldFields && (t.heap.isQuasi l).toOption.getD false) = true := by
    rw [hfold, h.quasi]
    rfl
  have hrecord : recordRead l ⟨t, .tracingLoop r, e⟩ =
      .ok () ((f₁.recorded (.foldedField l)).recorded (.guardVersion l)) := by
    rw [recordRead_eq, if_pos hquasi, hguard]
    simp only [bind, EStateM.bind, hfolded]
    exact hversion
  have hops : r.ops ++ [.foldedField l] ++ [.guardVersion l] =
      r.ops ++ [.foldedField l, .guardVersion l] := List.append_assoc _ _ _
  refine ⟨(t.capture l).1.journal, (getField_of_recordRead rfl h.get hrecord).trans ?_⟩
  simp only [recorded, Mode.modifyRecording, f₁, hops]
  rw [Tracer.capture, hread]
  rfl

/-- The pass that reaches the threshold begins a trace, which folds its read of the field. -/
theorem getField_of_begin {k : Key} {n : Nat} (hon : t.settings.enabled = true)
    (hs : t.cache.loop? (e.site k) = none)
    (hits : t.settings.threshold ≤ t.hits.findD (e.site k) 0 + 1) (hk : t.shapes.Accepts e k)
    (hp : t.monitor.ledger.phase (e.site k) ≠ .compiling) (hq : t.monitor.Quiet)
    (h : t.heap.Has l x) (hfold : t.settings.foldFields = true)
    (hc : t.cache.versions = .revoked l n) (hroom : 3 ≤ t.settings.traceLimit) :
    ∃ m t₁ js, Tracer.enterOrCount e k t = .ok m t₁ ∧ getField l ⟨t₁, m, e⟩ = .ok (.ok x)
      ⟨{ t with
          hits := t.hits.insert (e.site k) 0
          cache := { t.cache with versions := .lone l n [] }
          monitor := t.monitor.told none { t.monitor.ledger with
            phases := t.monitor.ledger.phases.insert (e.site k) .compiling }
          journal := js },
        .tracingLoop {
          key := k
          ops := [.label, .foldedField l, .guardVersion l]
          guards := .lone ⟨0, l, n + 1⟩ }, e⟩ := by
  obtain ⟨js, hcount⟩ := Tracer.countHit_reached hits hk hp hq
  have hread := Versions.read_revoked l n
  rw [← hc] at hread
  obtain ⟨js₁, hget⟩ := getField_folded (e := e) (t := { t with
      journal := js
      hits := t.hits.insert (e.site k) 0
      monitor := t.monitor.told none { t.monitor.ledger with
        phases := t.monitor.ledger.phases.insert (e.site k) .compiling } })
    (r := { key := k, ops := [.label] }) h hfold hread rfl hroom
  exact ⟨_, _, js₁, (Tracer.enterOrCount_of_none hon hs).trans hcount, hget⟩

theorem recorded_of_none (hm : f.mode.recording? = none) (op : Op) : f.recorded op = f := by
  obtain ⟨t, m, e⟩ := f
  cases m <;> first | rfl | cases hm

theorem setField_of_room (hr : f.mode.recording? = some r)
    (hroom : r.ops.length < f.tracer.settings.traceLimit) (l : Location) (value : Int) :
    setField l value f = storeField l value (f.recorded (.setField l)) := by
  rw [setField_eq]
  simp only [bind, EStateM.bind, record_of_room hr hroom]

theorem setField_of_none (hm : f.mode.recording? = none) (l : Location) (value : Int) :
    setField l value f = storeField l value f := by
  have hrecord : record (.setField l) f = .ok () f := by rw [record_eq, hm]
  rw [setField_eq]
  simp only [bind, EStateM.bind, hrecord]

theorem abortTrace_heard (cause : Abort) {ledger : Ledger} (hr : f.mode.recording? = some r)
    (hk : f.tracer.shapes.Accepts f.entry r.key)
    (hl : f.tracer.monitor.ledger.abort cause f.entry r.key = .ok ledger)
    (hq : f.tracer.monitor.Quiet) :
    ∃ js, abortTrace cause f = .ok () { f with
      tracer := { f.tracer with
        journal := js
        monitor := f.tracer.monitor.told (some (.abort cause f.entry r.key)) ledger }
      mode := .interpreting } := by
  have hreport := Tracer.report_heard (r := .abort cause f.entry r.key)
    (t := f.tracer.note [.traceGivenUp f.entry r.key cause]) hk hl hq
  obtain ⟨js, hreport⟩ := hreport
  unfold abortTrace
  rw [hr]
  dsimp only
  rw [hreport]
  exact ⟨js, rfl⟩

theorem afterRevocation_of_keep
    (h : ((f.revoked i).mode.recording?.any fun r =>
      decide (r.guards.Covers i.stale.location)) = false) :
    afterRevocation i f = .ok () (f.revoked i) := by
  rw [afterRevocation_eq]
  exact if_neg (Bool.eq_false_iff.1 h)

theorem afterRevocation_of_covers
    (h : ((f.revoked i).mode.recording?.any fun r =>
      decide (r.guards.Covers i.stale.location)) = true) :
    afterRevocation i f = abortTrace .forcedWrite (f.revoked i) := by
  rw [afterRevocation_eq]
  exact if_pos h

theorem revoked_of_nil (hd : i.dependents = []) (f : Frame) :
    ∃ js, f.revoked i = { f with tracer := { f.tracer with journal := js } } := by
  have hretire : f.tracer.retireDependents i =
      (f.tracer.note (f.tracer.cache.narrateRetireAll []), []) := by
    rw [Tracer.retireDependents, Cache.apply, hd]
    rfl
  have hmode : f.modeWithout [] = f.mode := by simp [modeWithout]
  rw [revoked, hretire, Tracer.forgetAll_nil, hmode]
  exact ⟨_, rfl⟩

/-- A version takes the one artifact that depends on it with it. -/
theorem revoked_of_singleton {h : Handle} {c : Cache} (hd : i.dependents = [h])
    (hc : f.tracer.cache.retireAll [h] = (c, [h])) (hm : f.mode.artifact? = none) :
    ∃ js, f.revoked i = { f with tracer := { f.tracer with
      cache := c
      failures := f.tracer.failures.filterKeys fun k => decide (k.1 ∉ [h])
      monitor := { f.tracer.monitor with ledger := f.tracer.monitor.ledger.forget h }
      journal := js } } := by
  have hretire : f.tracer.retireDependents i =
      ({ f.tracer.note (f.tracer.cache.narrateRetireAll [h]) with cache := c }, [h]) := by
    rw [Tracer.retireDependents, Cache.apply, hd, hc]
  have hmode : f.modeWithout [h] = f.mode := by simp [modeWithout, hm]
  rw [revoked, hretire, hmode, Tracer.forgetAll, List.foldl_cons, List.foldl_nil, Tracer.forget,
    Monitor.fst_retire]
  exact ⟨_, rfl⟩

theorem storeField_untracked (h : f.tracer.heap.Has l x)
    (hl : f.tracer.cache.versions.current? l = none) (value : Int) :
    ∃ t' heap js, storeField l value f = .ok (.ok ()) { f with tracer := t' } ∧
      t'.heap.Has l value ∧
      t' = { f.tracer with heap := heap, journal := js } := by
  obtain ⟨t', heap, js, hw, hhas, ht'⟩ := Tracer.write_untracked h hl value
  refine ⟨t', heap, js, ?_, hhas, ht'⟩
  rw [storeField, hw]

theorem storeField_tracked (h : f.tracer.heap.Has l x)
    (hi : f.tracer.cache.versions.invalidate? l = some (vs, i)) (value : Int) :
    ∃ t' heap js, storeField l value f =
        (afterRevocation i >>= fun _ => pure (.ok ())) { f with tracer := t' } ∧
      t'.heap.Has l value ∧ t' = { f.tracer with
        heap := heap
        cache := { f.tracer.cache with versions := vs }
        journal := js } := by
  obtain ⟨t', heap, js, hw, hhas, ht'⟩ := Tracer.write_tracked h hi value
  refine ⟨t', heap, js, ?_, hhas, ht'⟩
  rw [storeField, hw]

/-- A write revokes the version, and a trace that did not capture it goes on. -/
theorem setField_uncovered
    (hr : ∀ r, f.mode.recording? = some r →
      r.ops.length < f.tracer.settings.traceLimit ∧ ¬ r.guards.Covers l)
    (h : f.tracer.heap.Has l x) (hi : f.tracer.cache.versions.invalidate? l = some (vs, i))
    (value : Int) : ∃ t' heap js, setField l value f =
        .ok (.ok ()) (revoked i { f.recorded (.setField l) with tracer := t' }) ∧
      heap.Has l value ∧ t' = { f.tracer with
        heap := heap
        cache := { f.tracer.cache with versions := vs }
        journal := js } := by
  obtain ⟨t', heap, js, hstore, hhas, ht'⟩ :=
    storeField_tracked (f := f.recorded (.setField l)) h hi value
  have hrecord : record (.setField l) f = .ok () (f.recorded (.setField l)) := by
    cases hm : f.mode.recording? with
    | none => rw [record_eq, hm, recorded_of_none hm]
    | some r => exact record_of_room hm (hr r hm).1
  have hloc : i.stale.location = l := Versions.location_of_current? (Versions.invalidate?_spec hi).1
  have hkeep := afterRevocation_of_keep (i := i)
    (f := { f.recorded (.setField l) with tracer := t' })
    (by
      rw [hloc]
      refine (congrArg (Option.any _) (recording?_modeWithout _ _)).trans ?_
      cases hm : f.mode.recording? with
      | none =>
          rw [recorded_of_none hm, hm]
          rfl
      | some r =>
          rw [recording?_recorded hm]
          exact decide_eq_false (hr r hm).2)
  rw [setField_eq]
  simp only [bind, EStateM.bind, hrecord, hstore, hkeep]
  rw [ht'] at hhas
  exact ⟨t', heap, js, rfl, hhas, ht'⟩

/-- A write outside of traces, without code on the field. -/
theorem setField_revoked {n : Nat} (hm : f.mode.recording? = none) (h : f.tracer.heap.Has l x)
    (hc : f.tracer.cache.versions = .revoked l n) (value : Int) :
    ∃ t' heap js, setField l value f = .ok (.ok ()) { f with tracer := t' } ∧ t'.heap.Has l value ∧
      t' = { f.tracer with
        heap := heap
        cache := { f.tracer.cache with versions := .revoked l (if n = 0 then 0 else n + 1) }
        journal := js } := by
  cases n with
  | zero =>
      have hempty : f.tracer.cache.versions.current? l = none := by rw [hc]; rfl
      obtain ⟨t', heap, js, hset, hhas, ht'⟩ := storeField_untracked h hempty value
      refine ⟨t', heap, js, (setField_of_none hm l value).trans hset, hhas, ?_⟩
      rw [if_pos rfl, ← hc, ht']
  | succ n =>
      have hrevoke := Versions.invalidate?_lone l (n + 1) []
      change (Versions.revoked l (n + 1)).invalidate? l = _ at hrevoke
      rw [← hc] at hrevoke
      obtain ⟨t', heap, js, hset, hhas, ht'⟩ :=
        setField_uncovered (fun r hr => nomatch hm.symm.trans hr) h hrevoke value
      obtain ⟨js', hrevoked⟩ := revoked_of_nil (i := ⟨⟨0, l, n + 2⟩, n + 3, []⟩) rfl
        { f.recorded (.setField l) with tracer := t' }
      rw [hrevoked, recorded_of_none hm, ht'] at hset
      exact ⟨_, heap, js', hset, hhas, rfl⟩

/-- A trace that captured the version is given up with the write. -/
theorem setField_forced {ledger : Ledger} (h : t.heap.Has l x)
    (hi : t.cache.versions.invalidate? l = some (vs, i)) (hd : i.dependents = [])
    (hc : r.guards.Covers l) (hroom : r.ops.length < t.settings.traceLimit)
    (hk : t.shapes.Accepts e r.key)
    (hl : t.monitor.ledger.abort .forcedWrite e r.key = .ok ledger) (hq : t.monitor.Quiet)
    (value : Int) : ∃ t' heap js, setField l value ⟨t, .tracingLoop r, e⟩ =
        .ok (.ok ()) ⟨t', .interpreting, e⟩ ∧ t'.heap.Has l value ∧ t' = { t with
          heap := heap
          cache := { t.cache with versions := vs }
          monitor := t.monitor.told (some (.abort .forcedWrite e r.key)) ledger
          journal := js } := by
  let f : Frame := recorded (.setField l) ⟨t, .tracingLoop r, e⟩
  obtain ⟨t₁, heap, js, hstore, hhas, ht₁⟩ := storeField_tracked (f := f) h hi value
  obtain ⟨js₁, hrevoked⟩ := revoked_of_nil hd { f with tracer := t₁ }
  have hloc : i.stale.location = l := Versions.location_of_current? (Versions.invalidate?_spec hi).1
  have hforced : afterRevocation i { f with tracer := t₁ } =
      abortTrace .forcedWrite (revoked i { f with tracer := t₁ }) :=
    afterRevocation_of_covers (by rw [hrevoked, hloc]; exact decide_eq_true hc)
  obtain ⟨js₂, habort⟩ := abortTrace_heard .forcedWrite
    (f := { f with tracer := { t₁ with journal := js₁ } })
    (r := { r with ops := r.ops ++ [.setField l] }) rfl (by rw [ht₁]; exact hk)
    (by rw [ht₁]; exact hl) (by rw [ht₁]; exact hq)
  rw [hrevoked, habort] at hforced
  rw [setField_of_room rfl hroom, hstore]
  simp only [bind, EStateM.bind, hforced]
  refine ⟨_, heap, js₂, rfl, hhas, ?_⟩
  rw [ht₁]
  rfl

end Frame

end HotLoop
