import HotLoop.Proofs.LedgerSteps
import HotLoop.Proofs.Steps

/-!
# Reports that are accepted

A report whose key has an accepted shape, and whose step the ledger allows, takes that step and does
nothing else to the tracer. Only an observer can still end it with a fault, behind the step.
-/

namespace HotLoop

open Code Journal Lifecycle Trace

/-! ## Shapes -/

namespace Shapes

variable {s s' : Shapes} {e : EntryPoint} {k : Key}

/-- The key is accepted, and it fixes nothing new. -/
def Accepts (s : Shapes) (e : EntryPoint) (k : Key) : Prop := s.check e k = .ok s

/-- No kinds are fixed for the entry point but these. -/
def Allows (s : Shapes) (e : EntryPoint) (kinds : List Green.Kind) : Prop :=
  ∀ fixed, s.kinds.find? e.id = some fixed → fixed = kinds

theorem mismatch?_kinds (e : EntryPoint) (k : Key) : mismatch? e k k.kinds = none := by
  have hz : ∀ p ∈ (k.kinds.zip k.kinds).zip e.greens, p.1.1 = p.1.2 := by
    rintro ⟨⟨a, b⟩, n⟩ hp
    obtain ⟨hab, -⟩ := List.of_mem_zip hp
    rw [List.zip_eq_zipWith, List.zipWith_self] at hab
    obtain ⟨c, -, hc⟩ := List.mem_map.1 hab
    obtain ⟨rfl, rfl⟩ := Prod.mk.inj hc
    rfl
  unfold mismatch?
  rw [List.find?_eq_none.2 fun p hp => by simpa using hz p hp]
  rfl

theorem accepts_iff : s.Accepts e k ↔ k.values.length = e.arity ∧
    ∃ kinds, s.kinds.find? e.id = some kinds ∧ mismatch? e k kinds = none := by
  unfold Accepts check
  by_cases hl : k.values.length = e.arity
  · rw [if_neg (not_not.2 hl), and_iff_right hl]
    cases hk : s.kinds.find? e.id with
    | none =>
        refine iff_of_false (fun hs => ?_) (by simp)
        have hi := FinMap.find?_insert s.kinds e.id e.id k.kinds
        have hs : s.kinds.insert e.id k.kinds = s.kinds := congrArg Shapes.kinds (Except.ok.inj hs)
        rw [hs, hk, if_pos rfl] at hi
        cases hi
    | some kinds =>
        cases hm : mismatch? e k kinds with
        | none => simp [hm]
        | some green => simp [hm]
  · rw [if_pos hl]
    exact iff_of_false (fun h => by cases h) fun h => hl h.1

theorem check_eq_ok (h : s.check e k = .ok s') :
    s.Accepts e k ∧ s' = s ∨
      s.kinds.find? e.id = none ∧ k.values.length = e.arity ∧
        s' = ⟨s.kinds.insert e.id k.kinds⟩ := by
  by_cases hs : s.Accepts e k
  · exact Or.inl ⟨hs, (Except.ok.inj (hs.symm.trans h)).symm⟩
  · unfold check at h
    split_ifs at h with hl
    cases hk : s.kinds.find? e.id with
    | none =>
        rw [hk] at h
        exact Or.inr ⟨rfl, not_not.1 hl, (Except.ok.inj h).symm⟩
    | some kinds =>
        rw [hk] at h
        dsimp only at h
        cases hm : mismatch? e k kinds with
        | none => exact absurd (accepts_iff.2 ⟨not_not.1 hl, kinds, hk, hm⟩) hs
        | some green =>
            rw [hm] at h
            cases h

theorem accepts_of_check (h : s.check e k = .ok s') : s'.Accepts e k := by
  rcases check_eq_ok h with ⟨hs, rfl⟩ | ⟨-, hl, rfl⟩
  · exact hs
  · refine accepts_iff.2 ⟨hl, k.kinds, ?_, mismatch?_kinds e k⟩
    exact (FinMap.find?_insert _ _ _ _).trans (if_pos rfl)

theorem Accepts.of_check {e' : EntryPoint} {k' : Key} (hs : s.Accepts e k)
    (h : s.check e' k' = .ok s') : s'.Accepts e k := by
  rcases check_eq_ok h with ⟨-, rfl⟩ | ⟨hn, -, rfl⟩
  · exact hs
  · obtain ⟨hl, kinds, hk, hm⟩ := accepts_iff.1 hs
    refine accepts_iff.2 ⟨hl, kinds, ?_, hm⟩
    have hne : e.id ≠ e'.id := by
      intro he
      rw [he, hn] at hk
      cases hk
    exact (FinMap.find?_insert _ _ _ _).trans ((if_neg hne).trans hk)

/-- A key of the kinds that are allowed is accepted, and these stay the ones that are allowed. -/
theorem Allows.check {kinds : List Green.Kind} (hs : s.Allows e kinds)
    (hl : k.values.length = e.arity) (hk : k.kinds = kinds) :
    ∃ s', s.check e k = .ok s' ∧ s'.Allows e kinds := by
  subst hk
  cases hf : s.kinds.find? e.id with
  | none =>
      refine ⟨⟨s.kinds.insert e.id k.kinds⟩, ?_, fun fixed hfixed => ?_⟩
      · simp only [Shapes.check, hl, ne_eq, not_true_eq_false, if_false, hf]
      · have hi := FinMap.find?_insert s.kinds e.id e.id k.kinds
        rw [if_pos rfl] at hi
        exact Option.some.inj (hfixed.symm.trans hi)
  | some fixed =>
      obtain rfl := hs fixed hf
      exact ⟨s, accepts_iff.2 ⟨hl, _, hf, mismatch?_kinds e k⟩, hs⟩

end Shapes

/-! ## Reports -/

namespace Lifecycle

def Report.step : Report → Ledger → Except Fault Ledger
  | .begin e k, l => l.begin e k
  | .abort cause e k, l => l.abort cause e k
  | .loop e k h _ _ _ _, l => l.announceLoop e k h
  | .bridge e parent b _ _ _ _, l => l.announceBridge e parent b

def Report.Accepted (s : Shapes) : Report → Prop
  | .begin e k => s.Accepts e k
  | .abort _ e k => s.Accepts e k
  | .loop e k _ _ _ _ _ => s.Accepts e k
  | .bridge _ _ _ _ _ _ _ => True

namespace Monitor

variable {s : Shapes × Monitor} {l : Ledger}

def Took (s : Shapes × Monitor) (l : Ledger) (s' : Shapes × Monitor) : Prop :=
  s'.1 = s.1 ∧ s'.2.ledger = l ∧ (s.2.Quiet → s'.2.Quiet)

def Failed (s : Shapes × Monitor) (l : Ledger) (f : Fault) (s' : Shapes × Monitor) : Prop :=
  (∃ hook, f = .observerFailed hook) ∧ ¬ s.2.Quiet ∧ Took s l s'

theorem notify_ends (n : Notice) (s : Shapes × Monitor) :
    Ends (fun _ s' => Took s s.2.ledger s') (Failed s s.2.ledger) (notify n s) := by
  have hd : s.2.Quiet → (Observer.deliver ⟨n, s.2.ledger⟩ s.2.observers).2 = true :=
    Observer.deliver_quiet _
  have ht : Took s s.2.ledger
      (s.1, { s.2 with observers := (Observer.deliver ⟨n, s.2.ledger⟩ s.2.observers).1 }) := by
    refine ⟨rfl, rfl, fun hq o' ho' => ?_⟩
    obtain ⟨o, ho, he⟩ := Observer.fails_deliver ⟨n, s.2.ledger⟩ s.2.observers o' ho'
    rw [he]
    exact hq o ho
  change Ends _ _ (if (Observer.deliver ⟨n, s.2.ledger⟩ s.2.observers).2 then
    .ok () (s.1, { s.2 with observers := (Observer.deliver ⟨n, s.2.ledger⟩ s.2.observers).1 })
    else .error (.observerFailed n.hook)
      (s.1, { s.2 with observers := (Observer.deliver ⟨n, s.2.ledger⟩ s.2.observers).1 }))
  split_ifs with hall
  · exact ht
  · exact ⟨⟨n.hook, rfl⟩, fun hq => hall (hd hq), ht⟩

theorem checkKey_of_accepts {e : EntryPoint} {k : Key} (hk : s.1.Accepts e k) :
    Shapes.checkKey e k s = .ok () s := by
  unfold Shapes.checkKey
  rw [hk]

theorem enter_of_ok {step : Ledger → Except Fault Ledger} (hl : step s.2.ledger = .ok l) :
    enter step s = .ok () (s.1, { s.2 with ledger := l }) := by
  unfold enter
  rw [hl]

theorem enter_of_error {step : Ledger → Except Fault Ledger} {f : Fault}
    (hl : step s.2.ledger = .error f) : enter step s = .error f s := by
  unfold enter
  rw [hl]

theorem enter_notify_ends {step : Ledger → Except Fault Ledger} (hl : step s.2.ledger = .ok l)
    (n : Notice) :
    Ends (fun _ s' => Took s l s') (Failed s l) ((enter step >>= fun _ => notify n) s) := by
  refine Ends.bind ?_
  rw [enter_of_ok hl]
  exact notify_ends n (s.1, { s.2 with ledger := l })

theorem take_begin {e : EntryPoint} {k : Key} (hk : s.1.Accepts e k)
    (hl : s.2.ledger.begin e k = .ok l) :
    take (.begin e k) s = .ok () (s.1, { s.2 with ledger := l }) := by
  have ht : take (.begin e k) s =
      (Shapes.checkKey e k >>= fun _ => enter fun l => l.begin e k) s := rfl
  have he : enter (fun l => l.begin e k) s = .ok () (s.1, { s.2 with ledger := l }) :=
    enter_of_ok hl
  rw [ht]
  simp only [bind, EStateM.bind, checkKey_of_accepts hk, he]

theorem take_ends {r : Report} (hr : r.Accepted s.1) (hl : r.step s.2.ledger = .ok l) :
    Ends (fun _ s' => Took s l s') (Failed s l) (take r s) := by
  cases r with
  | begin e k =>
      rw [take_begin hr hl]
      exact ⟨rfl, rfl, id⟩
  | abort cause e k =>
      refine Ends.bind ?_
      rw [checkKey_of_accepts hr]
      exact enter_notify_ends hl _
  | loop e k h ops kind address length =>
      refine Ends.bind ?_
      rw [checkKey_of_accepts hr]
      exact enter_notify_ends hl _
  | bridge e parent b i ops address length => exact enter_notify_ends hl _

theorem take_of_error {r : Report} {f : Fault} (hr : r.Accepted s.1)
    (hl : r.step s.2.ledger = .error f) : take r s = .error f s := by
  have henter : ∀ (step : Ledger → Except Fault Ledger) (n : Notice), step s.2.ledger = .error f →
      (enter step >>= fun _ => notify n) s = .error f s := by
    intro step n hstep
    simp only [bind, EStateM.bind, enter_of_error hstep]
  have hkey : ∀ {e : EntryPoint} {k : Key} (next : EStateM Fault (Shapes × Monitor) Unit),
      s.1.Accepts e k → next s = .error f s →
      (Shapes.checkKey e k >>= fun _ => next) s = .error f s := by
    intro e k next hk hnext
    simp only [bind, EStateM.bind, checkKey_of_accepts hk, hnext]
  cases r with
  | begin e k => exact hkey (enter fun l => l.begin e k) hr (enter_of_error hl)
  | abort cause e k => exact hkey _ hr (henter _ (.abort cause e k) hl)
  | loop e k h ops kind address length =>
      exact hkey _ hr (henter _ (.compile e k h ops kind address length) hl)
  | bridge e parent b i ops address length =>
      exact henter _ (.bridge e parent b i ops address length) hl

end Monitor

end Lifecycle

namespace Tracer

variable {t : Tracer} {l : Ledger}

structure Reported (t : Tracer) (l : Ledger) (t' : Tracer) : Prop extends SameCode t t' where
  shapes : t'.shapes = t.shapes
  ledger : t'.monitor.ledger = l
  quiet : t.monitor.Quiet → t'.monitor.Quiet

theorem report_ends {r : Report} (hr : r.Accepted t.shapes) (hl : r.step t.monitor.ledger = .ok l) :
    Ends (fun _ t' => t.Reported l t')
      (fun f t' => (∃ hook, f = .observerFailed hook) ∧ ¬ t.monitor.Quiet ∧ t.Reported l t')
      (report r t) := by
  have ht := Monitor.take_ends (s := (t.shapes, t.monitor)) hr hl
  have hn : ((t.note (t.monitor.narrate t.shapes r)).shapes,
      (t.note (t.monitor.narrate t.shapes r)).monitor) = (t.shapes, t.monitor) := rfl
  rw [report_eq]
  unfold onMonitor
  rw [hn]
  cases hm : Monitor.take r (t.shapes, t.monitor) with
  | ok a s =>
      rw [hm] at ht
      obtain ⟨hs, hledger, hq⟩ := ht
      exact ⟨⟨rfl, rfl, rfl⟩, hs, hledger, hq⟩
  | error f s =>
      rw [hm] at ht
      obtain ⟨hf, hloud, hs, hledger, hq⟩ := ht
      exact ⟨hf, hloud, ⟨rfl, rfl, rfl⟩, hs, hledger, hq⟩

/-- A report that the ledger refuses is told to the journal alone. -/
theorem ends_report_of_error {P : Unit → Tracer → Prop} {E : Fault → Tracer → Prop} {r : Report}
    {f : Fault} (hr : r.Accepted t.shapes) (hl : r.step t.monitor.ledger = .error f)
    (h : E f (t.note (t.monitor.narrate t.shapes r))) : Ends P E (report r t) := by
  have ht := Monitor.take_of_error (s := (t.shapes, t.monitor)) hr hl
  have hn : ((t.note (t.monitor.narrate t.shapes r)).shapes,
      (t.note (t.monitor.narrate t.shapes r)).monitor) = (t.shapes, t.monitor) := rfl
  rw [report_eq]
  unfold onMonitor
  rw [hn, ht]
  exact h

theorem report_begin {e : EntryPoint} {k : Key} (hk : t.shapes.Accepts e k)
    (hl : t.monitor.ledger.begin e k = .ok l) :
    ∃ t', report (.begin e k) t = .ok () t' ∧ t.Reported l t' := by
  have ht := Monitor.take_begin (s := (t.shapes, t.monitor)) hk hl
  have hn : ((t.note (t.monitor.narrate t.shapes (.begin e k))).shapes,
      (t.note (t.monitor.narrate t.shapes (.begin e k))).monitor) = (t.shapes, t.monitor) := rfl
  rw [report_eq]
  unfold onMonitor
  rw [hn, ht]
  exact ⟨_, rfl, ⟨rfl, rfl, rfl⟩, rfl, rfl, id⟩

theorem ledger_forget (t : Tracer) (h : Handle) :
    (t.forget h).monitor = { t.monitor with ledger := t.monitor.ledger.forget h } :=
  t.monitor.fst_retire h

/-- Forgetting artifacts takes them out of the ledger. -/
theorem forgetAll_reported (t : Tracer) (hs : List Handle) :
    t.Reported (hs.foldl Ledger.forget t.monitor.ledger) (t.forgetAll hs) := by
  have hfold : ∀ t₀ : Tracer, (hs.foldl forget t₀).shapes = t₀.shapes ∧
      (hs.foldl forget t₀).monitor =
        { t₀.monitor with ledger := hs.foldl Ledger.forget t₀.monitor.ledger } := by
    induction hs with
    | nil => exact fun t₀ => ⟨rfl, rfl⟩
    | cons h hs ih =>
        intro t₀
        obtain ⟨hs', hm⟩ := ih (t₀.forget h)
        refine ⟨hs', hm.trans ?_⟩
        rw [ledger_forget]
        rfl
  obtain ⟨hs', hm⟩ := hfold { t with failures := t.failures.filterKeys fun k => decide (k.1 ∉ hs) }
  have hm : (t.forgetAll hs).monitor =
      { t.monitor with ledger := hs.foldl Ledger.forget t.monitor.ledger } := hm
  refine ⟨sameCode_forgetAll t hs, hs', ?_, fun hq => ?_⟩
  · rw [hm]
  · rw [hm]
    exact hq

end Tracer

end HotLoop
