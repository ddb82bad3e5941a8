import HotLoop.Proofs.Acceptance

/-!
# Steps that nothing hinders

While observers never fail, what the tracer reports in order is accepted, and each of its steps has
one outcome: a pass is counted or traced, code is entered, a trace is closed or given up, a failure
of a guard is counted, traced, or handed to a bridge. The outcomes are given here as tracers, exact
but for the journal.
-/

namespace HotLoop

open Code Journal Lifecycle Trace

/-! ## Reports that all observers hear -/

namespace Lifecycle

namespace Observer

/-- Observers that never fail all receive what is delivered. -/
theorem deliver_eq (d : Delivery) {os : List Observer}
    (h : ∀ o ∈ os, ∀ inbox d, o.fails inbox d = false) :
    deliver d os = (os.map fun o => o.receive d, true) := by
  induction os with
  | nil => rfl
  | cons o os ih =>
      have ho := h o List.mem_cons_self o.inbox d
      have hos := ih fun o' ho' => h o' (List.mem_cons_of_mem _ ho')
      simp only [deliver, ho, hos, Bool.false_eq_true, if_false, List.map_cons]

end Observer

namespace Monitor

def notices (m : Monitor) : List (List Notice) := m.observers.map Observer.notices

def told (m : Monitor) (n? : Option Notice) (l : Ledger) : Monitor where
  ledger := l
  observers := n?.elim m.observers fun n => m.observers.map fun o => o.receive ⟨n, l⟩

variable {m : Monitor}

theorem notices_told (m : Monitor) (n? : Option Notice) (l : Ledger) :
    (m.told n? l).notices = m.notices.map (· ++ n?.toList) := by
  cases n? with
  | none => simp [notices, told]
  | some n => simp [notices, told, Observer.receive, Observer.notices]

theorem Quiet.told (hq : m.Quiet) (n? : Option Notice) (l : Ledger) : (m.told n? l).Quiet := by
  cases n? with
  | none => exact hq
  | some n =>
      intro o' ho'
      obtain ⟨o, ho, rfl⟩ := List.mem_map.1 ho'
      exact hq o ho

theorem take_quiet {r : Report} {s : Shapes × Monitor} {l : Ledger} (hr : r.check s.1 = .ok s.1)
    (hl : r.step s.2.ledger = .ok l) (hq : s.2.Quiet) :
    take r s = .ok () (s.1, s.2.told r.notice? l) := by
  rw [take_eq]
  simp only [hr, hl]
  cases r.notice? with
  | none => rfl
  | some n =>
      simp only [tell, notify]
      rw [Observer.deliver_eq ⟨n, l⟩ hq]
      rfl

end Monitor

end Lifecycle

namespace Tracer

variable {t : Tracer} {e : EntryPoint} {k : Key} {h : Handle} {a : Artifact} {l : Ledger}

/-- An accepted report changes the ledger and is heard. -/
theorem report_heard {r : Report} (hr : r.Accepted t.shapes) (hl : r.step t.monitor.ledger = .ok l)
    (hq : t.monitor.Quiet) :
    ∃ js, report r t = .ok () { t with journal := js, monitor := t.monitor.told r.notice? l } := by
  have hn : ((t.note (t.monitor.narrate t.shapes r)).shapes,
      (t.note (t.monitor.narrate t.shapes r)).monitor) = (t.shapes, t.monitor) := rfl
  have ht := Monitor.take_quiet (s := (t.shapes, t.monitor)) (Report.check_of_accepted hr) hl hq
  rw [report_eq]
  unfold onMonitor
  rw [hn, ht]
  exact ⟨_, rfl⟩

/-! ## Passes of a loop head -/

theorem countHit_below (hits : t.hits.findD (e.site k) 0 + 1 < t.settings.threshold) :
    countHit e k t =
      .ok .interpreting
        { t with hits := t.hits.insert (e.site k) (t.hits.findD (e.site k) 0 + 1) } := by
  rw [countHit_eq]
  exact if_pos hits

/-- The pass that reaches the threshold starts a trace, and the count starts again. -/
theorem countHit_reached (hits : t.settings.threshold ≤ t.hits.findD (e.site k) 0 + 1)
    (hk : t.shapes.Accepts e k) (hp : t.monitor.ledger.phase (e.site k) ≠ .compiling)
    (hq : t.monitor.Quiet) :
    ∃ js, countHit e k t = .ok (.tracingLoop { key := k, ops := [.label] })
      { t with
        journal := js
        hits := t.hits.insert (e.site k) 0
        monitor := t.monitor.told none { t.monitor.ledger with
          phases := t.monitor.ledger.phases.insert (e.site k) .compiling } } := by
  let t' := { t with hits := t.hits.insert (e.site k) 0 }.note [.loopTraced e k]
  have hl : t'.monitor.ledger.begin e k = .ok _ := Ledger.begin_eq_ok_iff.2 ⟨hp, rfl⟩
  obtain ⟨js, hj⟩ := report_heard (t := t') (r := .begin e k) hk hl hq
  rw [countHit_eq]
  dsimp only
  rw [if_neg (Nat.not_lt.2 hits)]
  simp only [bind, EStateM.bind]
  rw [hj]
  exact ⟨js, rfl⟩

theorem enterOrCount_of_none (hon : t.settings.enabled = true)
    (hs : t.cache.loop? (e.site k) = none) : enterOrCount e k t = countHit e k t := by
  rw [enterOrCount_eq, if_pos hon, hs]

theorem enterOrCount_of_current (hon : t.settings.enabled = true)
    (hs : t.cache.loop? (e.site k) = some h) (ha : t.cache.get? h = some a)
    (hg : a.guards.firstStale? t.cache.versions = none) :
    ∃ js, enterOrCount e k t = .ok (.running h (directions a.operations) 0)
      { t with journal := js, cache := (t.cache.enter h).1 } := by
  have he := Cache.enter_of_current ha hg
  have hget : (t.enter h).1.cache.get? h = some a.entered := by
    rw [enter_eq, he]
    exact (FinMap.find?_modify _ h h _).trans
      ((if_pos rfl).trans (congrArg (Option.map Artifact.entered) ha))
  have hentered : (t.cache.enter h).2 = .entered := by rw [he]
  rw [enterOrCount_eq, if_pos hon, hs]
  simp only [hget, hentered]
  exact ⟨_, rfl⟩

theorem mergePoint_of_idle {m : Mode} (hm : m.recording? = none) :
    mergePoint e k m t = enterOrCount e k t := by
  cases m with
  | tracingLoop r => cases hm
  | tracingBridge parent i r => cases hm
  | _ => rfl

/-- Behind a trace that was closed the loop head is passed as ever. -/
theorem mergePoint_of_closeLoop {r : Recording} {t' : Tracer} (hc : closeLoop e r t = .ok () t') :
    mergePoint e r.key (.tracingLoop r) t = enterOrCount e r.key t' := by
  have hm : mergePoint e r.key (.tracingLoop r) t =
      (if r.key = r.key then (closeLoop e r >>= fun _ => enterOrCount e r.key)
        else pure (.tracingLoop r)) t := rfl
  rw [hm, if_pos rfl]
  simp only [bind, EStateM.bind, hc]

theorem mergePoint_of_closeBridge {parent : Handle} {i : Nat} {r : Recording} {t' : Tracer}
    (hc : closeBridge e parent i r t = .ok () t') :
    mergePoint e r.key (.tracingBridge parent i r) t = enterOrCount e r.key t' := by
  have hm : mergePoint e r.key (.tracingBridge parent i r) t =
      (if r.key = r.key then (closeBridge e parent i r >>= fun _ => enterOrCount e r.key)
        else pure (.tracingBridge parent i r)) t := rfl
  rw [hm, if_pos rfl]
  simp only [bind, EStateM.bind, hc]

/-! ## Ends of a trace -/

theorem forgetAll_nil (t : Tracer) : t.forgetAll [] = t := by
  have hf : (t.failures.filterKeys fun k => decide (k.1 ∉ ([] : List Handle))) = t.failures := by
    obtain ⟨entries, hn⟩ := t.failures
    simp [FinMap.filterKeys]
  rw [forgetAll, hf]
  rfl

/-- A closed trace is installed as a loop and announced, where the site has no loop. -/
theorem closeLoop_installs {r : Recording} {c : Cache} (hk : t.shapes.Accepts e r.key)
    (hc : t.cache.addLoop (e.site r.key) r.guards (r.ops ++ [.jump]) = (c, .ok ⟨h, []⟩))
    (hl : t.monitor.ledger.announceLoop e r.key h = .ok l) (hq : t.monitor.Quiet) :
    ∃ js, closeLoop e r t = .ok ()
      { t with
        journal := js
        cache := c
        monitor := t.monitor.told
          (some (.compile e r.key h (r.ops ++ [.jump]) .loop 0 0)) l } := by
  have hinstall : ∃ js, installLoop e r.key r.guards (r.ops ++ [.jump]) t =
      .ok (.ok ⟨h, []⟩) { t with journal := js, cache := c } := by
    rw [installLoop_eq, show t.shapes.check e r.key = .ok t.shapes from hk, hc]
    exact ⟨_, rfl⟩
  obtain ⟨js, hinstall⟩ := hinstall
  rw [closeLoop_eq, hinstall]
  dsimp only
  rw [forgetAll_nil]
  have hreport := report_heard (r := .loop e r.key h (r.ops ++ [.jump]) .loop 0 0)
    (t := { t with journal := js, cache := c }) hk hl hq
  exact hreport

/-- A closed trace is attached to its live loop as a bridge and announced. -/
theorem closeBridge_installs {parent b : Handle} {i : Nat} {r : Recording} {c : Cache}
    (hp : t.cache.get? parent = some a) (hk : a.IsLoop)
    (hc : t.cache.addBridge parent a.site i r.guards (r.ops ++ [.jump]) = (c, .ok b))
    (hl : t.monitor.ledger.announceBridge e parent b = .ok l) (hq : t.monitor.Quiet) :
    ∃ js, closeBridge e parent i r t = .ok ()
      { t with
        journal := js
        cache := c
        monitor := t.monitor.told
          (some (.bridge e parent b i (r.ops ++ [.jump]) 0 0)) l } := by
  have hinstall : ∃ js, installBridge parent i r.guards (r.ops ++ [.jump]) t =
      .ok (.ok b) { t with journal := js, cache := c } := by
    rw [installBridge_eq]
    simp only [hp, if_pos hk, hc]
    exact ⟨_, rfl⟩
  obtain ⟨js, hinstall⟩ := hinstall
  rw [closeBridge_eq, if_pos ((Cache.isLive_iff _ _).2 ⟨a, hp⟩), hinstall]
  have hreport := report_heard (r := .bridge e parent b i (r.ops ++ [.jump]) 0 0)
    (t := { t with journal := js, cache := c }) trivial hl hq
  exact hreport

theorem leaveLoop_of_idle {m : Mode} (hm : m.recording? = none) : leaveLoop e m t = .ok () t := by
  cases m with
  | tracingLoop r => cases hm
  | tracingBridge parent i r => cases hm
  | _ => rfl

/-- Leaving the loop gives the open trace up. -/
theorem leaveLoop_aborts {m : Mode} {r : Recording} {cause : Abort}
    (hm : m = .tracingLoop r ∧ cause = .badLoop ∨
      (∃ parent i, m = .tracingBridge parent i r) ∧ cause = .bridge)
    (hk : t.shapes.Accepts e r.key) (hl : t.monitor.ledger.abort cause e r.key = .ok l)
    (hq : t.monitor.Quiet) :
    ∃ js, leaveLoop e m t = .ok ()
      { t with journal := js, monitor := t.monitor.told (some (.abort cause e r.key)) l } := by
  obtain ⟨rfl, rfl⟩ | ⟨⟨parent, i, rfl⟩, rfl⟩ := hm
  · exact report_heard (r := .abort .badLoop e r.key) hk hl hq
  · exact report_heard (r := .abort .bridge e r.key) hk hl hq

/-! ## Failures of a branch guard -/

theorem guardFailed_below {i : Nat} (hb : t.cache.bridge? h i = none) (ha : t.cache.get? h = some a)
    (hf : t.failures.findD (h, i) 0 + 1 < t.settings.traceEagerness) :
    ∃ js, t.guardFailed h i =
      ({ t with
          journal := js
          failures := t.failures.insert (h, i) (t.failures.findD (h, i) 0 + 1) },
        .interpreting) := by
  simp only [guardFailed_eq, hb, countFailure, ha]
  exact ⟨_, if_pos hf⟩

/-- The failure that reaches the eagerness starts the trace of a bridge, and the count starts
again. -/
theorem guardFailed_reached {i : Nat} (hb : t.cache.bridge? h i = none)
    (ha : t.cache.get? h = some a)
    (hf : t.settings.traceEagerness ≤ t.failures.findD (h, i) 0 + 1) :
    ∃ js, t.guardFailed h i =
      ({ t with journal := js, failures := t.failures.insert (h, i) 0 },
        .tracingBridge h i { key := a.site.key, ops := [] }) := by
  simp only [guardFailed_eq, hb, countFailure, ha]
  exact ⟨_, if_neg (Nat.not_lt.2 hf)⟩

theorem guardFailed_bridged {b : Handle} {i : Nat} (hb : t.cache.bridge? h i = some b)
    (ha : t.cache.get? b = some a) (hg : a.guards.firstStale? t.cache.versions = none) :
    ∃ js, t.guardFailed h i =
      ({ t with journal := js, cache := (t.cache.enter b).1 }, .runningBridge b) := by
  have hentered : (t.cache.enter b).2 = .entered := by rw [Cache.enter_of_current ha hg]
  simp only [guardFailed_eq, hb, hentered]
  exact ⟨_, rfl⟩

end Tracer

theorem Frame.branch_of_tracingLoop {t : Tracer} {e : EntryPoint} {r : Recording}
    (hroom : r.ops.length < t.settings.traceLimit) (cond : Bool) :
    Frame.branch cond ⟨t, .tracingLoop r, e⟩ = .ok ()
      ⟨t, .tracingLoop
        { r with
          ops := r.ops ++ [.guardBranch r.branches cond]
          branches := r.branches + 1 }, e⟩ := by
  rw [Frame.branch_eq]
  dsimp only [Mode.modifyRecording]
  rw [Frame.record_eq]
  exact if_neg (Nat.not_lt.2 hroom)

end HotLoop
