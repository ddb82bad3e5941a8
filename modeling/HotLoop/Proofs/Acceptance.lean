import HotLoop.Proofs.Acts

/-!
# What a monitor accepts

A monitor refuses a report whose key is malformed, whose step is against the contract, or whose
bridge can no longer be counted. What is refused is not seen afterwards: the ledger and the
observers are as they were, and all that comes later is answered as if the report had not been made,
up to the kinds that its key may have fixed. What is accepted makes the ledger, act by act.
-/

namespace HotLoop

/-- A report was refused: it broke the contract of the monitor, or the bridges of a loop can no
longer be counted. All other faults have another origin. -/
def Fault.ofRefusal : Fault → Bool
  | .keyLength _ _ => true
  | .keyKind _ _ _ => true
  | .attemptInProgress _ _ => true
  | .abortWithoutAttempt _ _ _ => true
  | .loopWithoutAttempt _ _ _ _ => true
  | .announcedTwice _ => true
  | .unknownParent _ _ => true
  | .foreignParent _ => true
  | .deadParent _ _ _ => true
  | .countOverflow => true
  | _ => false

def Fault.ofShape : Fault → Bool
  | .keyLength _ _ => true
  | .keyKind _ _ _ => true
  | _ => false

def Fault.ofBegin : Fault → Bool
  | .attemptInProgress _ _ => true
  | _ => false

theorem Fault.of_ofShape {f : Fault} (h : f.ofShape = true) :
    f.ofRefusal = true ∧ f.ofBegin = false := by
  cases f with
  | keyLength k e => exact ⟨rfl, rfl⟩
  | keyKind k e green => exact ⟨rfl, rfl⟩
  | _ => cases h

namespace Shapes

variable {s s' : Shapes} {e : EntryPoint} {k : Key}

theorem ofShape_of_check {f : Fault} (h : s.check e k = .error f) : f.ofShape = true := by
  unfold check at h
  split_ifs at h
  · cases h
    rfl
  · split at h
    · cases h
    · split at h
      · cases h
      · cases h
        rfl

theorem fault_of_check {f : Fault} (h : s.check e k = .error f) :
    f.ofRefusal = true ∧ f.ofBegin = false :=
  Fault.of_ofShape (ofShape_of_check h)

theorem mismatch?_eq_none_iff {kinds : List Green.Kind} (hk : k.kinds.length = e.greens.length)
    (hl : kinds.length = e.greens.length) : mismatch? e k kinds = none ↔ k.kinds = kinds := by
  constructor
  · intro h
    apply List.ext_getElem (hk.trans hl.symm)
    intro i hi hi'
    have hnone := List.find?_eq_none.1 (Option.map_eq_none_iff.1 h)
    have hgreens : i < e.greens.length := hk ▸ hi
    have hmem : ((k.kinds[i], kinds[i]), e.greens[i]) ∈ (k.kinds.zip kinds).zip e.greens := by
      apply List.mem_iff_getElem.2
      exact ⟨i, by simp; omega, by simp⟩
    simpa using hnone _ hmem
  · rintro rfl
    exact mismatch?_kinds e k

/-- Keys of other kinds than those fixed are refused. -/
theorem check_of_ne {kinds : List Green.Kind} (hf : s.kinds.find? e.id = some kinds)
    (hl : kinds.length = e.arity) (hk : k.kinds ≠ kinds) :
    ∃ f, s.check e k = .error f ∧ f.ofShape = true := by
  cases hc : s.check e k with
  | error f => exact ⟨f, rfl, ofShape_of_check hc⟩
  | ok s' =>
      rcases check_eq_ok hc with ⟨hacc, -⟩ | ⟨hn, -⟩
      · obtain ⟨hlen, fixed, hfixed, hm⟩ := accepts_iff.1 hacc
        obtain rfl := Option.some.inj (hfixed.symm.trans hf)
        exact absurd ((mismatch?_eq_none_iff ((List.length_map _).trans hlen) hl).1 hm) hk
      · rw [hf] at hn
        cases hn

/-- The shapes are the same, but `s'` may have fixed `kinds` for `i` where `s` has fixed nothing. -/
def Foresees (i : Nat) (kinds : List Green.Kind) (s s' : Shapes) : Prop :=
  ∀ j, s'.kinds.find? j = s.kinds.find? j ∨
    j = i ∧ s.kinds.find? j = none ∧ s'.kinds.find? j = some kinds

/-- Keys of the kinds that are foreseen are judged alike. -/
theorem Foresees.check {i : Nat} {kinds : List Green.Kind} (hs : Foresees i kinds s s')
    (hk : e.id = i → k.kinds = kinds) :
    (∃ f, s.check e k = .error f ∧ s'.check e k = .error f) ∨
      ∃ t t', s.check e k = .ok t ∧ s'.check e k = .ok t' ∧ Foresees i kinds t t' := by
  by_cases hl : k.values.length = e.arity
  · have hinsert : ∀ {t t' : Shapes} (j : Nat), t.kinds.find? j = t'.kinds.find? j →
        (t.kinds.insert e.id k.kinds).find? j = (t'.kinds.insert e.id k.kinds).find? j := by
      intro t t' j hj
      rw [FinMap.find?_insert, FinMap.find?_insert, hj]
    rcases hs e.id with he | ⟨he, hn, hf⟩
    · simp only [Shapes.check, hl, ne_eq, not_true_eq_false, if_false, he]
      cases hfix : s.kinds.find? e.id with
      | none =>
          refine Or.inr ⟨_, _, rfl, rfl, fun j => ?_⟩
          rcases hs j with hj | ⟨hj, hjn, hjf⟩
          · exact Or.inl (hinsert j hj)
          · have hje : j ≠ e.id := by
              rintro rfl
              rw [he, hjn] at hjf
              cases hjf
            simp only [FinMap.find?_insert, if_neg hje]
            exact Or.inr ⟨hj, hjn, hjf⟩
      | some fixed =>
          dsimp only
          cases mismatch? e k fixed with
          | none => exact Or.inr ⟨s, s', rfl, rfl, hs⟩
          | some green => exact Or.inl ⟨_, rfl, rfl⟩
    · obtain rfl := hk he
      simp only [Shapes.check, hl, ne_eq, not_true_eq_false, if_false, hn, hf, mismatch?_kinds]
      refine Or.inr ⟨_, s', rfl, rfl, fun j => ?_⟩
      by_cases hj : j = e.id
      · simp only [FinMap.find?_insert, if_pos hj]
        exact Or.inl (hj ▸ hf)
      · simp only [FinMap.find?_insert, if_neg hj]
        exact hs j
  · exact Or.inl ⟨.keyLength k e, by simp [Shapes.check, hl], by simp [Shapes.check, hl]⟩

end Shapes

namespace Lifecycle

open Trace

/-! ## Reports -/

def Notice.counter : Notice → Tally.Counter
  | .abort cause _ _ => .aborts cause
  | .compile _ _ _ _ _ _ _ => .loopsCompiled
  | .bridge _ _ _ _ _ _ _ => .bridgesCompiled

namespace Report

/-- The check of the key. A bridge is reported without one. -/
def check : Report → Shapes → Except Fault Shapes
  | .begin e k, s => s.check e k
  | .abort _ e k, s => s.check e k
  | .loop e k _ _ _ _ _, s => s.check e k
  | .bridge _ _ _ _ _ _ _, s => .ok s

def notice? : Report → Option Notice
  | .begin _ _ => none
  | .abort cause e k => some (.abort cause e k)
  | .loop e k h ops kind address length => some (.compile e k h ops kind address length)
  | .bridge e p b i ops address length => some (.bridge e p b i ops address length)

theorem fault_of_check {r : Report} {s : Shapes} {f : Fault} (h : r.check s = .error f) :
    f.ofRefusal = true ∧ f.ofBegin = false := by
  cases r with
  | bridge e p b i ops address length => cases h
  | _ => exact Shapes.fault_of_check h

theorem fault_of_step {r : Report} {l : Ledger} {f : Fault} (h : r.step l = .error f) :
    f.ofRefusal = true ∧ (f.ofBegin = true → ∃ e k, r = .begin e k) := by
  have hother : f.ofRefusal = true ∧ f.ofBegin = false →
      f.ofRefusal = true ∧ (f.ofBegin = true → ∃ e k, r = .begin e k) := by
    rintro ⟨hf, hb⟩
    exact ⟨hf, fun hb' => by rw [hb] at hb'; cases hb'⟩
  cases r with
  | begin e k =>
      simp only [step, Ledger.begin] at h
      split_ifs at h
      cases h
      exact ⟨rfl, fun _ => ⟨e, k, rfl⟩⟩
  | abort cause e k =>
      apply hother
      simp only [step, Ledger.abort] at h
      split at h <;> cases h <;> exact ⟨rfl, rfl⟩
  | loop e k j ops kind address length =>
      apply hother
      simp only [step, Ledger.announceLoop] at h
      split_ifs at h <;> cases h <;> exact ⟨rfl, rfl⟩
  | bridge e p b i ops address length =>
      apply hother
      simp only [step, Ledger.announceBridge] at h
      split at h
      · cases h
        exact ⟨rfl, rfl⟩
      · split_ifs at h with he
        · cases h
          exact ⟨rfl, rfl⟩
        · rename_i s _
          cases hb : Ledger.bridgedPhase b p (l.phase s) with
          | ok phase =>
              rw [hb] at h
              cases h
          | error f' =>
              rw [hb] at h
              cases h
              rcases Ledger.fault_of_bridgedPhase hb with rfl | rfl <;> exact ⟨rfl, rfl⟩

/-- A check changes nothing, or it fixes the kinds of the first key of an entry point. -/
theorem shapes_check (r : Report) (s : Shapes) :
    (r.check s).toOption.getD s = s ∨
      ∃ e k, (Act.report r).key? = some (e, k) ∧ s.kinds.find? e.id = none ∧
        k.values.length = e.arity ∧
        (r.check s).toOption.getD s = ⟨s.kinds.insert e.id k.kinds⟩ := by
  have hkey : ∀ (e : EntryPoint) (k : Key), (s.check e k).toOption.getD s = s ∨
      s.kinds.find? e.id = none ∧ k.values.length = e.arity ∧
        (s.check e k).toOption.getD s = ⟨s.kinds.insert e.id k.kinds⟩ := by
    intro e k
    cases hc : s.check e k with
    | error f => exact Or.inl rfl
    | ok s' =>
        rcases Shapes.check_eq_ok hc with ⟨-, rfl⟩ | ⟨hn, hl, rfl⟩
        · exact Or.inl rfl
        · exact Or.inr ⟨hn, hl, rfl⟩
  cases r with
  | bridge e p b i ops address length => exact Or.inl rfl
  | begin e k => exact (hkey e k).imp_right fun h => ⟨e, k, rfl, h⟩
  | abort cause e k => exact (hkey e k).imp_right fun h => ⟨e, k, rfl, h⟩
  | loop e k h ops kind address length => exact (hkey e k).imp_right fun h => ⟨e, k, rfl, h⟩

theorem check_of_accepted {r : Report} {s : Shapes} (hr : r.Accepted s) : r.check s = .ok s := by
  cases r with
  | bridge parent b i ops address length => rfl
  | _ => exact hr

end Report

namespace Monitor

def tell : Option Notice → EStateM Fault (Shapes × Monitor) Unit
  | none => pure ()
  | some n => notify n

theorem take_eq (r : Report) (s : Shapes × Monitor) :
    take r s = match r.check s.1 with
      | .error f => .error f s
      | .ok shapes =>
        match r.step s.2.ledger with
        | .error f => .error f (shapes, s.2)
        | .ok l => tell r.notice? (shapes, { s.2 with ledger := l }) := by
  have hkey : ∀ (e : EntryPoint) (k : Key) (next : EStateM Fault (Shapes × Monitor) Unit),
      (Shapes.checkKey e k >>= fun _ => next) s = match s.1.check e k with
        | .error f => .error f s
        | .ok shapes => next (shapes, s.2) := by
    intro e k next
    simp only [bind, EStateM.bind, Shapes.checkKey]
    cases s.1.check e k <;> rfl
  have henter : ∀ (step : Ledger → Except Fault Ledger) (n : Notice) (shapes : Shapes),
      (enter step >>= fun _ => notify n) (shapes, s.2) = match step s.2.ledger with
        | .error f => .error f (shapes, s.2)
        | .ok l => tell (some n) (shapes, { s.2 with ledger := l }) := by
    intro step n shapes
    simp only [bind, EStateM.bind, enter]
    cases step s.2.ledger <;> rfl
  cases r with
  | begin e k =>
      refine (hkey e k (enter fun l => l.begin e k)).trans ?_
      simp only [Report.check, Report.step]
      cases s.1.check e k with
      | error f => rfl
      | ok shapes =>
          simp only [enter]
          cases s.2.ledger.begin e k <;> rfl
  | abort cause e k =>
      refine (hkey e k _).trans ?_
      simp only [Report.check, henter]
      rfl
  | loop e k h ops kind address length =>
      refine (hkey e k _).trans ?_
      simp only [Report.check, henter]
      rfl
  | bridge e p b i ops address length => exact henter (fun l => l.announceBridge e p b) _ s.1

theorem observerFailed_of_tell {n : Option Notice} {s s' : Shapes × Monitor} {f : Fault}
    (h : tell n s = .error f s') : ∃ hook, f = .observerFailed hook := by
  cases n with
  | none => cases h
  | some n =>
      simp only [tell, notify] at h
      split_ifs at h
      cases h
      exact ⟨n.hook, rfl⟩

theorem not_ofRefusal_of_tell {n : Option Notice} {s s' : Shapes × Monitor} {f : Fault}
    (h : tell n s = .error f s') : f.ofRefusal = false := by
  obtain ⟨hook, rfl⟩ := observerFailed_of_tell h
  rfl

/-- Telling the observers has nothing to do with shapes. -/
theorem tell_eq (n : Option Notice) (s : Shapes × Monitor) :
    tell n s = match tell n (∅, s.2) with
      | .ok _ t => .ok () (s.1, t.2)
      | .error f t => .error f (s.1, t.2) := by
  cases n with
  | none => rfl
  | some n =>
      simp only [tell, notify]
      split_ifs <;> rfl

theorem ledger_tell (n : Option Notice) (s : Shapes × Monitor) :
    Ends (fun _ s' => s'.2.ledger = s.2.ledger) (fun _ s' => s'.2.ledger = s.2.ledger)
      (tell n s) := by
  cases n with
  | none => exact rfl
  | some n => exact (notify_ends n s).imp (fun _ _ h => h.2.1) fun _ _ h => h.2.2.2.1

end Monitor

/-! ## Answers -/

namespace Act

def answer : Act → Shapes × Monitor → Except Fault Bool
  | .report r, s =>
    match Monitor.take r s with
    | .ok _ _ => .ok true
    | .error f _ => .error f
  | .retire h, s => .ok (s.2.retire h).2

def answers : List Act → Shapes × Monitor → List (Except Fault Bool)
  | [], _ => []
  | a :: as, s => a.answer s :: answers as (a.perform s)

/-- The key of the act, if it is one for the entry point, is of these kinds. -/
def Expects (i : Nat) (kinds : List Green.Kind) (a : Act) : Prop :=
  ∀ e k, a.key? = some (e, k) → e.id = i → k.kinds = kinds

theorem check_key? {r : Report} {s s' : Shapes} {i : Nat} {kinds : List Green.Kind}
    (hs : s.Foresees i kinds s') (ha : (Act.report r).Expects i kinds) :
    (∃ f, r.check s = .error f ∧ r.check s' = .error f) ∨
      ∃ t t', r.check s = .ok t ∧ r.check s' = .ok t' ∧ t.Foresees i kinds t' := by
  cases r with
  | bridge e p b j ops address length => exact Or.inr ⟨s, s', rfl, rfl, hs⟩
  | _ => exact hs.check fun he => ha _ _ rfl he

/-- A monitor that has kinds fixed beforehand does the same with keys of these kinds. -/
theorem answer_of_foresees {a : Act} {s s' : Shapes × Monitor} {i : Nat}
    {kinds : List Green.Kind} (hs : s.1.Foresees i kinds s'.1) (hm : s'.2 = s.2)
    (ha : a.Expects i kinds) :
    a.answer s' = a.answer s ∧ (a.perform s').2 = (a.perform s).2 ∧
      (a.perform s).1.Foresees i kinds (a.perform s').1 := by
  cases a with
  | retire h =>
      simp only [answer, perform, hm]
      exact ⟨trivial, trivial, hs⟩
  | report r =>
      simp only [answer, perform, Monitor.take_eq, hm]
      rcases check_key? hs ha with ⟨f, hc, hc'⟩ | ⟨t, t', hc, hc', ht⟩
      · simp only [hc, hc', hm]
        exact ⟨trivial, trivial, hs⟩
      · simp only [hc, hc']
        cases r.step s.2.ledger with
        | error f => exact ⟨rfl, rfl, ht⟩
        | ok l =>
            simp only
            rw [Monitor.tell_eq r.notice? (t, _), Monitor.tell_eq r.notice? (t', _)]
            cases Monitor.tell r.notice? (∅, { s.2 with ledger := l }) with
            | ok _ u => exact ⟨rfl, rfl, ht⟩
            | error f u => exact ⟨rfl, rfl, ht⟩

theorem shapes_perform (r : Report) (s : Shapes × Monitor) :
    ((Act.report r).perform s).1 = (r.check s.1).toOption.getD s.1 := by
  rw [perform, Monitor.take_eq]
  cases r.check s.1 with
  | error f => rfl
  | ok shapes =>
      dsimp only
      cases r.step s.2.ledger with
      | error f => rfl
      | ok l =>
          dsimp only
          rw [Monitor.tell_eq]
          cases Monitor.tell r.notice? (∅, { s.2 with ledger := l }) <;> rfl

/-- What is fixed stays fixed. -/
theorem kinds_perform {s : Shapes × Monitor} {i : Nat} {kinds : List Green.Kind} (a : Act)
    (hs : s.1.kinds.find? i = some kinds) : (a.perform s).1.kinds.find? i = some kinds := by
  cases a with
  | retire h => exact hs
  | report r =>
      rw [shapes_perform]
      rcases r.shapes_check s.1 with he | ⟨e, k, -, hn, -, he⟩
      · rwa [he]
      · rw [he, FinMap.find?_insert, if_neg, hs]
        rintro rfl
        rw [hs] at hn
        cases hn

/-- A key of other kinds than those fixed is refused, and nothing happens. -/
theorem refused_of_not_expects {a : Act} {s : Shapes × Monitor} {e : EntryPoint}
    {kinds : List Green.Kind} (hf : s.1.kinds.find? e.id = some kinds)
    (hl : kinds.length = e.arity)
    (hone : ∀ e' k, a.key? = some (e', k) → e'.id = e.id → e' = e)
    (ha : ¬ a.Expects e.id kinds) :
    (∃ f, a.answer s = .error f ∧ f.ofShape = true) ∧ a.perform s = s := by
  simp only [Expects, not_forall] at ha
  obtain ⟨e', k, hkey, hid, hne⟩ := ha
  obtain rfl := hone e' k hkey hid
  obtain ⟨f, hc, hshape⟩ := Shapes.check_of_ne hf hl hne
  cases a with
  | retire h => cases hkey
  | report r =>
      have hr : r.check s.1 = .error f := by
        cases r <;> cases hkey <;> exact hc
      rw [answer, perform, Monitor.take_eq, hr]
      exact ⟨⟨f, rfl, hshape⟩, rfl⟩

/-- A monitor that has kinds fixed beforehand refuses the keys of other kinds, and does the rest as
one that is told nothing else. -/
theorem answers_of_foresees {e : EntryPoint} {kinds : List Green.Kind} (hl : kinds.length = e.arity)
    {p : Act → Bool} {as : List Act} {s s' : Shapes × Monitor}
    (hs : s.1.Foresees e.id kinds s'.1) (hf : s'.1.kinds.find? e.id = some kinds) (hm : s'.2 = s.2)
    (hone : ∀ a ∈ as, ∀ e' k, a.key? = some (e', k) → e'.id = e.id → e' = e)
    (hp : ∀ a, p a = true ↔ a.Expects e.id kinds) :
    (performAll as s').2 = (performAll (as.filter p) s).2 ∧
      ((as.zip (answers as s')).filter fun q => p q.1) =
        (as.filter p).zip (answers (as.filter p) s) ∧
      ∀ q ∈ as.zip (answers as s'), p q.1 = false → ∃ f, q.2 = .error f ∧ f.ofShape = true := by
  induction as generalizing s s' with
  | nil => exact ⟨hm, rfl, fun q hq => by cases hq⟩
  | cons a as ih =>
      obtain ⟨hfirst, hrest⟩ := List.forall_mem_cons.1 hone
      by_cases ha : p a = true
      · obtain ⟨hanswer, hmon, hnext⟩ := answer_of_foresees hs hm ((hp a).1 ha)
        obtain ⟨hall, hanswers, hout⟩ := ih hnext (kinds_perform a hf) hmon hrest
        rw [List.filter_cons_of_pos ha]
        simp only [performAll, List.foldl_cons, answers, List.zip_cons_cons, hanswer]
        refine ⟨hall, ?_, List.forall_mem_cons.2 ⟨fun hna => absurd ha (by simp [hna]), hout⟩⟩
        rw [List.filter_cons_of_pos (by exact ha), hanswers]
      · obtain ⟨hanswer, hperform⟩ :=
          refused_of_not_expects hf hl hfirst (mt (hp a).2 ha)
        obtain ⟨hall, hanswers, hout⟩ := ih hs hf hm hrest
        rw [List.filter_cons_of_neg ha]
        simp only [performAll, List.foldl_cons, answers, List.zip_cons_cons, hperform]
        refine ⟨hall, ?_, List.forall_mem_cons.2 ⟨fun _ => hanswer, hout⟩⟩
        rw [List.filter_cons_of_neg (by simpa using ha), hanswers]

end Act

/-! ## Refusals -/

/-- A refused report leaves behind what the check of its key leaves, and nothing else. -/
theorem Monitor.take_refused {r : Report} {s s' : Shapes × Monitor} {f : Fault}
    (hr : take r s = .error f s') (hf : f.ofRefusal = true) :
    s' = ((r.check s.1).toOption.getD s.1, s.2) := by
  rw [take_eq] at hr
  cases hc : r.check s.1 with
  | error f' =>
      rw [hc] at hr
      cases hr
      rfl
  | ok shapes =>
      rw [hc] at hr
      dsimp only at hr
      cases hstep : r.step s.2.ledger with
      | error f' =>
          rw [hstep] at hr
          cases hr
          rfl
      | ok l =>
          rw [hstep] at hr
          rw [not_ofRefusal_of_tell hr] at hf
          cases hf

/-- Only an attempt can be in the way of another one. -/
theorem Monitor.begins_of_take {r : Report} {s s' : Shapes × Monitor} {f : Fault}
    (hr : take r s = .error f s') (hf : f.ofBegin = true) : ∃ e k, r = .begin e k := by
  rw [take_eq] at hr
  cases hc : r.check s.1 with
  | error f' =>
      rw [hc] at hr
      cases hr
      rw [(Report.fault_of_check hc).2] at hf
      cases hf
  | ok shapes =>
      rw [hc] at hr
      dsimp only at hr
      cases hstep : r.step s.2.ledger with
      | error f' =>
          rw [hstep] at hr
          cases hr
          exact (Report.fault_of_step hstep).2 hf
      | ok l =>
          rw [hstep] at hr
          obtain ⟨hook, rfl⟩ := observerFailed_of_tell hr
          cases hf

/-- The key of the act is of the kinds that `s'` has fixed for its entry point, if `s` has fixed
none there. -/
def Act.Suits (s s' : Shapes) (a : Act) : Bool :=
  match a.key? with
  | none => true
  | some (e, k) =>
    s'.kinds.find? e.id = s.kinds.find? e.id ∨ s'.kinds.find? e.id = some k.kinds

theorem Act.suits_self (s : Shapes) (a : Act) : a.Suits s s = true := by
  unfold Act.Suits
  split <;> simp

theorem Act.suits_insert_iff {s : Shapes} {i : Nat} {kinds : List Green.Kind} {a : Act}
    (hn : s.kinds.find? i = none) :
    a.Suits s ⟨s.kinds.insert i kinds⟩ = true ↔ a.Expects i kinds := by
  unfold Act.Suits Act.Expects
  cases hk : a.key? with
  | none => simp
  | some ek =>
      obtain ⟨e, k⟩ := ek
      by_cases he : e.id = i
      · subst he
        simp [FinMap.find?_insert, hn, eq_comm]
      · simp [FinMap.find?_insert, he]

/-- Reports are refused as a whole. Phases, announced loops and bridges, the tally, and what the
observers have received are as before; the entry point may have learned the kinds of its first key.
Later acts whose keys are of other kinds than those just learned are refused. All others are
answered, entered and delivered as if neither these acts nor the report had been made. -/
theorem refusal_unseen {r : Report} {s s' : Shapes × Monitor} {f : Fault}
    (hr : Monitor.take r s = .error f s') (hf : f.ofRefusal = true) :
    s'.2 = s.2 ∧ s'.1 = (r.check s.1).toOption.getD s.1 ∧ ∀ later : List Act,
      (∀ a ∈ later, ∀ e k e' k', (Act.report r).key? = some (e, k) → a.key? = some (e', k') →
        e'.id = e.id → e' = e) →
      let suited := later.filter (Act.Suits s.1 s'.1)
      (Act.performAll later s').2 = (Act.performAll suited s).2 ∧
        ((later.zip (Act.answers later s')).filter fun q => q.1.Suits s.1 s'.1) =
          suited.zip (Act.answers suited s) ∧
        ∀ q ∈ later.zip (Act.answers later s'), q.1.Suits s.1 s'.1 = false →
          ∃ g, q.2 = .error g ∧ g.ofShape = true := by
  have hs := Monitor.take_refused hr hf
  have hm : s'.2 = s.2 := by rw [hs]
  refine ⟨hm, by rw [hs], fun later hone => ?_⟩
  rcases r.shapes_check s.1 with he | ⟨e, k, hkey, hn, hl, he⟩
  · rw [he] at hs
    subst hs
    have hall : later.filter (Act.Suits s.1 s.1) = later :=
      List.filter_eq_self.2 fun a _ => a.suits_self s.1
    have hzip : ((later.zip (Act.answers later s)).filter fun q => q.1.Suits s.1 s.1) =
        later.zip (Act.answers later s) :=
      List.filter_eq_self.2 fun q _ => q.1.suits_self s.1
    dsimp only
    rw [hall, hzip]
    exact ⟨rfl, rfl, fun q _ hq => absurd (q.1.suits_self s.1) (by simp [hq])⟩
  · rw [he] at hs
    subst hs
    have hkinds : k.kinds.length = e.arity := (List.length_map _).trans hl
    refine Act.answers_of_foresees hkinds
      (fun j => ?_) ((FinMap.find?_insert _ _ _ _).trans (if_pos rfl)) rfl
      (fun a ha e' k' => hone a ha e k e' k' hkey) fun a => Act.suits_insert_iff hn
    by_cases hj : j = e.id
    · exact Or.inr ⟨hj, hj ▸ hn, (FinMap.find?_insert _ _ _ _).trans (if_pos hj)⟩
    · exact Or.inl ((FinMap.find?_insert _ _ _ _).trans (if_neg hj))

/-- An attempt is given up that did not begin, and then one that did. In between a key of other
kinds is refused. -/
theorem refusal_unseen_escape :
    let e : EntryPoint := ⟨0, "loop", ["n", "m"], ["i"]⟩
    let k : Key := ⟨[.int 1, .int 4]⟩
    let s : Shapes × Monitor := (∅, { observers := [{}] })
    let start : Act := .report (.begin e k)
    let stop : Act := .report (.abort .escape e k)
    let later : List Act := [start, .report (.begin e ⟨[.str "a", .int 4]⟩), stop, .retire ⟨1⟩]
    ∃ s', Monitor.take (.abort .escape e k) s = .error (.abortWithoutAttempt e k .untouched) s' ∧
      s'.1.kinds.find? 0 = some [.int, .int] ∧ s'.2 = s.2 ∧
      ((later.zip (Act.answers later s')).filter fun q => q.1.Suits s.1 s'.1) =
        [(start, .ok true), (stop, .ok true), (.retire ⟨1⟩, .ok false)] ∧
      (Act.performAll later s').2.observers.map Observer.notices = [[.abort .escape e k]] := by
  intro e k s start stop later
  have hr : Monitor.take (.abort .escape e k) s =
      .error (.abortWithoutAttempt e k .untouched) (⟨(∅ : FinMap _ _).insert 0 k.kinds⟩, s.2) := rfl
  obtain ⟨hm, -, hlater⟩ := refusal_unseen hr rfl
  have hone : ∀ a ∈ later, ∀ e₁ k₁ e₂ k₂, (Act.report (.abort .escape e k)).key? = some (e₁, k₁) →
      a.key? = some (e₂, k₂) → e₂.id = e₁.id → e₂ = e₁ := by
    intro a ha e₁ k₁ e₂ k₂ h₁ h₂ _
    cases h₁
    simp only [later, List.mem_cons, List.not_mem_nil, or_false] at ha
    rcases ha with rfl | rfl | rfl | rfl <;> cases h₂ <;> rfl
  obtain ⟨hmon, hanswers, -⟩ := hlater later hone
  refine ⟨_, hr, rfl, hm, hanswers.trans rfl, ?_⟩
  rw [hmon]
  rfl

/-- A report that is refused may still be the first with a key at its entry point. A key of another
kind, which would have been accepted before it, is refused behind it. -/
theorem refusal_fixes_kinds :
    let e : EntryPoint := ⟨0, "loop", ["n"], ["i"]⟩
    let s : Shapes × Monitor := (∅, {})
    let start : Act := .report (.begin e ⟨[.int 1]⟩)
    ∃ s', Monitor.take (.abort .badLoop e ⟨[.str "a"]⟩) s =
        .error (.abortWithoutAttempt e ⟨[.str "a"]⟩ .untouched) s' ∧ s'.2 = s.2 ∧
      start.answer s = .ok true ∧ start.answer s' = .error (.keyKind ⟨[.int 1]⟩ e "n") :=
  ⟨_, rfl, rfl, rfl, rfl⟩

/-! ## What is accepted -/

deriving instance DecidableEq for Report

deriving instance DecidableEq for Act

/-- The monitor accepts the act, also if an observer fails behind it. -/
def Act.Taken (s : Shapes × Monitor) (a : Act) : Bool :=
  match a.answer s with
  | .ok known => known
  | .error f => !f.ofRefusal

def Monitor.new (shapes : Shapes) (os : List Observer) : Shapes × Monitor :=
  (shapes, { observers := os })

def taken : List Act → Shapes × Monitor → List Act
  | [], _ => []
  | a :: as, s => if a.Taken s then a :: taken as (a.perform s) else taken as (a.perform s)

theorem taken_append (past rest : List Act) (s : Shapes × Monitor) :
    taken (past ++ rest) s = taken past s ++ taken rest (Act.performAll past s) := by
  induction past generalizing s with
  | nil => rfl
  | cons a past ih =>
      simp only [List.cons_append, taken, Act.performAll, List.foldl_cons, ih]
      split_ifs <;> rfl

/-- The ledger behind these acts, each of which was accepted. -/
inductive Ledger.Behind : List Act → Ledger → Prop
  | nil : Behind [] {}
  | concat {acts : List Act} {l l' : Ledger} {a : Act} (hl : Behind acts l) (ha : l.Takes a l') :
      Behind (acts ++ [a]) l'

section

variable {a : Act} {s : Shapes × Monitor}

theorem taken_report_iff {r : Report} : (Act.report r).Taken s = true ↔
    (∃ shapes, r.check s.1 = .ok shapes) ∧ ∃ l, r.step s.2.ledger = .ok l := by
  simp only [Act.Taken, Act.answer, Monitor.take_eq]
  cases hc : r.check s.1 with
  | error f => simp [(Report.fault_of_check hc).1]
  | ok shapes =>
      cases hstep : r.step s.2.ledger with
      | error f => simp [(Report.fault_of_step hstep).1]
      | ok l =>
          simp only [Except.ok.injEq, exists_eq', and_self, iff_true]
          cases ht : Monitor.tell r.notice? (shapes, { s.2 with ledger := l }) with
          | ok _ s' => rfl
          | error f s' => simp [Monitor.not_ofRefusal_of_tell ht]

theorem takes_of_taken (ha : a.Taken s = true) : s.2.ledger.Takes a (a.perform s).2.ledger := by
  cases a with
  | retire h =>
      apply Ledger.takes_retire
      simp only [Act.Taken, Act.answer, Act.perform, Monitor.retire] at ha ⊢
      cases hr : s.2.ledger.retire? h with
      | none =>
          rw [hr] at ha
          cases ha
      | some l => rfl
  | report r =>
      obtain ⟨⟨shapes, hc⟩, l, hstep⟩ := taken_report_iff.1 ha
      apply Ledger.takes_report
      have hl := Monitor.ledger_tell r.notice? (shapes, { s.2 with ledger := l })
      simp only [Act.perform, Monitor.take_eq, hc, hstep]
      cases ht : Monitor.tell r.notice? (shapes, { s.2 with ledger := l }) with
      | ok _ s' =>
          rw [ht] at hl
          exact congrArg Except.ok hl.symm
      | error f s' =>
          rw [ht] at hl
          exact congrArg Except.ok hl.symm

theorem perform_of_not_taken (ha : a.Taken s ≠ true) : (a.perform s).2 = s.2 := by
  cases a with
  | retire h =>
      simp only [Act.Taken, Act.answer, Act.perform, Monitor.retire] at ha ⊢
      cases hr : s.2.ledger.retire? h with
      | none => rfl
      | some l =>
          rw [hr] at ha
          exact absurd rfl ha
  | report r =>
      simp only [Act.Taken, Act.answer] at ha
      simp only [Act.perform]
      cases hr : Monitor.take r s with
      | ok _ s' =>
          rw [hr] at ha
          exact absurd rfl ha
      | error f s' =>
          rw [hr] at ha
          have hf : f.ofRefusal = true := by simpa using ha
          rw [Monitor.take_refused hr hf]

namespace Ledger

theorem takes_report_iff {r : Report} {l l' : Ledger} :
    l.Takes (.report r) l' ↔ r.step l = .ok l' := by
  refine ⟨fun h => ?_, takes_report⟩
  have hstep : (r.step l).toOption = some l' := h.step_eq
  cases hr : r.step l with
  | error f =>
      rw [hr] at hstep
      cases hstep
  | ok l'' =>
      rw [hr] at hstep
      exact congrArg Except.ok (Option.some.inj hstep)

/-- A step counts as the notice that observers are told of it. Nothing counts the attempts. -/
theorem tally_of_step {r : Report} {l l' : Ledger} (hl : r.step l = .ok l') :
    l'.tally = r.notice?.elim l.tally fun n => l.tally.add 1 n.counter := by
  cases takes_report hl <;> rfl

theorem behind_taken {past as : List Act} (hs : Behind past s.2.ledger) :
    Behind (past ++ taken as s) (Act.performAll as s).2.ledger := by
  induction as generalizing past s with
  | nil =>
      rw [taken, List.append_nil]
      exact hs
  | cons a as ih =>
      by_cases ha : a.Taken s = true
      · have hnext := ih (hs.concat (takes_of_taken ha))
        rw [List.append_assoc] at hnext
        rw [taken, if_pos ha]
        exact hnext
      · rw [taken, if_neg ha]
        refine ih (s := a.perform s) ?_
        rw [perform_of_not_taken ha]
        exact hs

theorem behind_new (shapes : Shapes) (os : List Observer) (as : List Act) :
    Behind (taken as (Monitor.new shapes os))
      (Act.performAll as (Monitor.new shapes os)).2.ledger := by
  have hstart : Behind [] (Monitor.new shapes os).2.ledger := .nil
  exact behind_taken hstart

theorem Behind.of_concat {acts : List Act} {l : Ledger} (hl : Behind (acts ++ [a]) l) :
    ∃ l₀, Behind acts l₀ ∧ l₀.Takes a l := by
  generalize hacts : acts ++ [a] = all at hl
  cases hl with
  | nil => simp at hacts
  | concat hl ha =>
      obtain ⟨rfl, he⟩ := List.append_inj' hacts rfl
      cases he
      exact ⟨_, hl, ha⟩

theorem Behind.split {past rest : List Act} {l : Ledger} (hl : Behind (past ++ a :: rest) l) :
    ∃ l₀ l₁, Behind past l₀ ∧ l₀.Takes a l₁ := by
  induction rest using List.reverseRecOn generalizing l with
  | nil =>
      obtain ⟨l₀, hl₀, ha⟩ := hl.of_concat
      exact ⟨l₀, l, hl₀, ha⟩
  | append_singleton rest x ih =>
      rw [← List.cons_append, ← List.append_assoc] at hl
      obtain ⟨l₀, hl₀, -⟩ := hl.of_concat
      exact ih hl₀

end Ledger

end

end Lifecycle

end HotLoop
