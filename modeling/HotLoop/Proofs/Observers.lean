import HotLoop.Proofs.Acceptance
import HotLoop.Proofs.Counts

/-!
# What observers receive

An observer is told of a report after the step is made, and only if none of the observers added
before it fails. `reaching` lists by its position what reaches an observer in the course of events.
The tally counts the accepted reports, so it agrees with the records of the first observer.
-/

namespace HotLoop.Lifecycle

open Trace

inductive Event where
  | call (a : Act)
  | add (o : Observer)

def Report.delivery? (r : Report) (s : Shapes × Monitor) : Option Delivery :=
  match r.check s.1, r.step s.2.ledger with
  | .ok _, .ok l => r.notice?.map fun n => ⟨n, l⟩
  | _, _ => none

namespace Event

def perform : Event → Shapes × Monitor → Shapes × Monitor
  | .call a, s => a.perform s
  | .add o, s => (s.1, s.2.addObserver o)

def performAll (es : List Event) (s : Shapes × Monitor) : Shapes × Monitor :=
  es.foldl (fun s e => e.perform s) s

def delivery? : Event → Shapes × Monitor → Option Delivery
  | .call (.report r), s => r.delivery? s
  | _, _ => none

end Event

namespace Observer

def receiveAll (o : Observer) (ds : List Delivery) : Observer := { o with inbox := o.inbox ++ ds }

theorem receiveAll_nil (o : Observer) : o.receiveAll [] = o := by
  rw [receiveAll, List.append_nil]

def anyFails (os : List Observer) (d : Delivery) : Bool :=
  os.any fun o => o.fails o.inbox d

end Observer

/-- What reaches an observer that has `i` observers before it: what is delivered while none of these
fails. -/
def reaching (i : Nat) : List Event → Shapes × Monitor → List Delivery
  | [], _ => []
  | e :: es, s =>
    (e.delivery? s).toList.filter (fun d => !Observer.anyFails (s.2.observers.take i) d) ++
      reaching i es (e.perform s)

def sent : List Event → Shapes × Monitor → List Notice
  | [], _ => []
  | e :: es, s => ((e.delivery? s).map Delivery.notice).toList ++ sent es (e.perform s)

section

variable {s : Shapes × Monitor} {r : Report} {d : Delivery} {l : Ledger} {o : Observer} {i : Nat}

/-! ## One event -/

theorem delivery?_eq_some (hc : ∃ shapes, r.check s.1 = .ok shapes)
    (hl : r.step s.2.ledger = .ok l) : r.delivery? s = r.notice?.map fun n => ⟨n, l⟩ := by
  obtain ⟨shapes, hc⟩ := hc
  simp only [Report.delivery?, hc, hl]

theorem delivery?_of_not_taken (hr : (Act.report r).Taken s ≠ true) : r.delivery? s = none := by
  have hr := taken_report_iff.not.1 hr
  unfold Report.delivery?
  cases hc : r.check s.1 with
  | error f => rfl
  | ok shapes =>
      cases hl : r.step s.2.ledger with
      | error f => rfl
      | ok l => exact absurd ⟨⟨shapes, hc⟩, l, hl⟩ hr

/-- Observers are told what was accepted, and they see the ledger that it leaves behind. -/
theorem delivery?_eq_some_iff : r.delivery? s = some d ↔
    (Act.report r).Taken s = true ∧ r.notice? = some d.notice ∧
      ((Act.report r).perform s).2.ledger = d.ledger := by
  by_cases hr : (Act.report r).Taken s = true
  · have hl := Ledger.takes_report_iff.1 (takes_of_taken hr)
    rw [delivery?_eq_some (taken_report_iff.1 hr).1 hl, and_iff_right hr, Option.map_eq_some_iff]
    constructor
    · rintro ⟨n, hn, rfl⟩
      exact ⟨hn, rfl⟩
    · rintro ⟨hn, hd⟩
      exact ⟨d.notice, hn, by rw [hd]⟩
  · rw [delivery?_of_not_taken hr]
    exact iff_of_false nofun fun h => hr h.1

/-- The observers behind a report: they were told, if there was something to tell. -/
theorem observers_report (r : Report) (s : Shapes × Monitor) :
    ((Act.report r).perform s).2.observers =
      (r.delivery? s).elim s.2.observers fun d => (Observer.deliver d s.2.observers).1 := by
  by_cases hr : (Act.report r).Taken s = true
  · obtain ⟨⟨shapes, hc⟩, l, hl⟩ := taken_report_iff.1 hr
    rw [delivery?_eq_some ⟨shapes, hc⟩ hl]
    simp only [Act.perform, Monitor.take_eq, hc, hl]
    cases r.notice? with
    | none => rfl
    | some n =>
        simp only [Monitor.tell, Monitor.notify, Option.map_some, Option.elim_some]
        cases (Observer.deliver ⟨n, l⟩ s.2.observers).2 <;> rfl
  · rw [delivery?_of_not_taken hr, perform_of_not_taken hr]
    rfl

/-- An observer receives what no observer before it stops. -/
theorem Observer.getElem?_deliver (d : Delivery) (os : List Observer) (i : Nat) :
    (deliver d os).1[i]? =
      os[i]?.map fun o => if anyFails (os.take i) d then o else o.receive d := by
  induction os generalizing i with
  | nil => rfl
  | cons o os ih =>
      cases i with
      | zero =>
          unfold deliver
          by_cases hf : o.fails o.inbox d = true <;> simp [hf, anyFails]
      | succ i =>
          unfold deliver
          by_cases hf : o.fails o.inbox d = true
          · simp [hf, anyFails]
          · simpa [hf, anyFails] using ih i

theorem Event.getElem?_perform (e : Event) (ho : s.2.observers[i]? = some o) :
    (e.perform s).2.observers[i]? = some (o.receiveAll ((e.delivery? s).toList.filter fun d =>
      !Observer.anyFails (s.2.observers.take i) d)) := by
  have hsame : s.2.observers[i]? = some (o.receiveAll []) := by
    rw [o.receiveAll_nil]
    exact ho
  cases e with
  | add o' =>
      obtain ⟨hi, -⟩ := List.getElem?_eq_some_iff.1 ho
      exact (List.getElem?_append_left hi).trans hsame
  | call a =>
      cases a with
      | retire h =>
          refine Eq.trans ?_ hsame
          simp only [Event.perform, Act.perform, Monitor.fst_retire]
      | report r =>
          simp only [Event.perform, Event.delivery?, observers_report]
          cases r.delivery? s with
          | none => exact hsame
          | some d =>
              simp only [Option.elim_some, Observer.getElem?_deliver, ho, Option.map_some,
                Option.toList_some]
              by_cases hf : Observer.anyFails (s.2.observers.take i) d = true
              · simp [hf, o.receiveAll_nil]
              · simp [hf, Observer.receive, Observer.receiveAll]

/-! ## A course of events -/

/-- An inbox grows by what reaches its observer. -/
theorem getElem?_performAll (es : List Event) (ho : s.2.observers[i]? = some o) :
    (Event.performAll es s).2.observers[i]? = some (o.receiveAll (reaching i es s)) := by
  induction es generalizing s o with
  | nil =>
      rw [reaching, o.receiveAll_nil]
      exact ho
  | cons e es ih =>
      have hrest := ih (e.getElem?_perform ho)
      simp only [Observer.receiveAll, List.append_assoc] at hrest
      exact hrest

theorem notices_reaching_zero (es : List Event) (s : Shapes × Monitor) :
    (reaching 0 es s).map Delivery.notice = sent es s := by
  induction es generalizing s with
  | nil => rfl
  | cons e es ih =>
      rw [reaching, sent, List.map_append, ih]
      cases e.delivery? s <;> rfl

/-! ## Counting notices -/

/-- The tally has the numbers of these notices, of each kind. -/
structure Tally.Agrees (t : Tally) (ns : List Notice) : Prop where
  aborts : ∀ cause, t.aborts.count cause = ns.countP fun n => n.abort? = some cause
  loops : t.loopsCompiled = ns.countP fun n => n.loop?.isSome
  bridges : t.bridgesCompiled = ns.countP fun n => n.bridge?.isSome

theorem Tally.agrees_of_counter {t : Tally} {ns : List Notice}
    (h : ∀ c, c ≠ .loopsRetired → c ≠ .bridgesRetired →
      t.get c = ns.countP fun n => n.counter = c) : t.Agrees ns where
  aborts cause := by
    rw [← Tally.get, h (.aborts cause) (by simp) (by simp)]
    refine List.countP_congr fun n _ => ?_
    cases n <;> simp [Notice.counter, Notice.abort?]
  loops := by
    rw [← Tally.get, h .loopsCompiled (by simp) (by simp)]
    refine List.countP_congr fun n _ => ?_
    cases n <;> simp [Notice.counter, Notice.loop?]
  bridges := by
    rw [← Tally.get, h .bridgesCompiled (by simp) (by simp)]
    refine List.countP_congr fun n _ => ?_
    cases n <;> simp [Notice.counter, Notice.bridge?]

section

variable {c : Tally.Counter} (hloops : c ≠ .loopsRetired) (hbridges : c ≠ .bridgesRetired)

include hloops hbridges

/-- An event counts as the notice that is delivered, if there is one. -/
theorem Event.get_perform (e : Event) (s : Shapes × Monitor) :
    (e.perform s).2.ledger.tally.get c = s.2.ledger.tally.get c +
      ((e.delivery? s).map Delivery.notice).toList.countP fun n => n.counter = c := by
  cases e with
  | add o => rfl
  | call a =>
      cases a with
      | retire h =>
          simp only [perform, Act.perform, Monitor.fst_retire]
          exact Ledger.get_forget hloops hbridges s.2.ledger h
      | report r =>
          by_cases hr : (Act.report r).Taken s = true
          · have hl := Ledger.takes_report_iff.1 (takes_of_taken hr)
            simp only [perform, delivery?, delivery?_eq_some (taken_report_iff.1 hr).1 hl,
              Ledger.tally_of_step hl]
            cases r.notice? with
            | none => rfl
            | some n => simp [Tally.get_add, List.countP_singleton, eq_comm]
          · simp only [perform, delivery?, delivery?_of_not_taken hr, perform_of_not_taken hr]
            rfl

theorem get_performAll (es : List Event) (s : Shapes × Monitor) :
    (Event.performAll es s).2.ledger.tally.get c =
      s.2.ledger.tally.get c + (sent es s).countP fun n => n.counter = c := by
  induction es generalizing s with
  | nil => rfl
  | cons e es ih =>
      rw [sent, List.countP_append, ← Nat.add_assoc, ← e.get_perform hloops hbridges]
      exact ih (e.perform s)

end

/-- The tally of a new monitor counts all that is sent. -/
theorem agrees_sent (shapes : Shapes) (es : List Event) :
    (Event.performAll es (Monitor.new shapes [])).2.ledger.tally.Agrees
      (sent es (Monitor.new shapes [])) := by
  apply Tally.agrees_of_counter
  intro c hloops hbridges
  have hzero : (Monitor.new shapes []).2.ledger.tally.get c = 0 := by cases c <;> rfl
  rw [get_performAll hloops hbridges, hzero, Nat.zero_add]

end

/-- What observers receive. One that was added behind `i` others receives, in order, what was
accepted since then while none of these `i` failed. Each notice is the one of its report, and comes
with the ledger in which the step is already made. The tally counts all notices, also where
observers failed, so it agrees with the records of an observer that was added first of all. -/
theorem observers_receive (shapes : Shapes) :
    (∀ (past : List Event) (o : Observer) (rest : List Event),
      let s := Event.performAll past (Monitor.new shapes [])
      let i := s.2.observers.length
      let s' := (Event.add o).perform s
      (Event.performAll rest s').2.observers[i]? = some (o.receiveAll (reaching i rest s'))) ∧
    (∀ (r : Report) (s : Shapes × Monitor) (d : Delivery), r.delivery? s = some d ↔
      (Act.report r).Taken s = true ∧ r.notice? = some d.notice ∧
        ((Act.report r).perform s).2.ledger = d.ledger) ∧
    (∀ es : List Event,
      (Event.performAll es (Monitor.new shapes [])).2.ledger.tally.Agrees
        (sent es (Monitor.new shapes []))) ∧
    ∀ es : List Event,
      let now := (Event.performAll (.add {} :: es) (Monitor.new shapes [])).2
      ∃ recorder, now.observers[0]? = some recorder ∧ now.ledger.tally.Agrees recorder.notices := by
  refine ⟨fun past o rest => ?_, fun r s d => delivery?_eq_some_iff, agrees_sent shapes,
    fun es => ?_⟩
  · intro s i s'
    have hadd : s'.2.observers[i]? = some o := List.getElem?_concat_length
    exact getElem?_performAll rest hadd
  · intro now
    have hfirst : (Event.performAll [.add {}] (Monitor.new shapes [])).2.observers[0]? =
        some ({} : Observer) := rfl
    refine ⟨_, getElem?_performAll es hfirst, ?_⟩
    have hall := agrees_sent shapes (.add {} :: es)
    rw [Observer.notices]
    change now.ledger.tally.Agrees ((reaching 0 es _).map Delivery.notice)
    rw [notices_reaching_zero]
    exact hall

/-- The second observer fails at its first notice, and the third is added after that. -/
example :
    let e : EntryPoint := ⟨0, "loop", ["n", "m"], ["i"]⟩
    let k : Key := ⟨[.int 1, .int 4]⟩
    let start : Event := .call (.report (.begin e k))
    let abort : Event := .call (.report (.abort .escape e k))
    let fragile : Observer := { fails := fun inbox _ => inbox.isEmpty }
    let es := [.add {}, .add fragile, start, abort, .add {}, abort, start, abort]
    (Event.performAll es (Monitor.new ∅ [])).2.observers.map (fun o => o.notices.length) =
      [2, 2, 1] := by
  decide +kernel

end HotLoop.Lifecycle
