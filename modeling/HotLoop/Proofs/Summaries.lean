import HotLoop.Command.Output
import HotLoop.Proofs.Hearing
import HotLoop.Proofs.Merging
import HotLoop.Proofs.Observers
import HotLoop.Proofs.TallyTexts
import Mathlib.Algebra.Order.BigOperators.Group.List

/-!
# What commands print

A command runs programs one after the other, each on a tracer of its own, and one observer records
what all of them tell. The command prints this record with a summary. The summary counts what is in
the record: `summary_of_success`.
-/

namespace HotLoop

open Lifecycle Trace

namespace Lifecycle

/-! ## What a ledger retires -/

structure Ledger.Covers (l : Ledger) : Prop where
  loops : l.tally.loopsRetired + l.loops.size ≤ l.tally.loopsCompiled
  bridges : l.tally.bridgesRetired + l.bridges.size ≤ l.tally.bridgesCompiled

theorem Ledger.Takes.covers {l l' : Ledger} {a : Act} (h : l.Takes a l') (hl : l.Covers) :
    l'.Covers := by
  obtain ⟨hloops, hbridges⟩ := hl
  have hretire : ∀ {h : Handle} {s : Site}, l.loops.find? h = some s →
      l.tally.loopsRetired + 1 + (l.loops.erase h).size ≤ l.tally.loopsCompiled := by
    intro h s hs
    have hsize := FinMap.size_erase hs
    omega
  cases h with
  | begin e k hp => exact ⟨hloops, hbridges⟩
  | abort cause e k hp => exact ⟨hloops, hbridges⟩
  | abortBridge cause e k hp => exact ⟨hloops, hbridges⟩
  | loop e k h ops kind address length hp hn =>
      refine ⟨?_, hbridges⟩
      change l.tally.loopsRetired + (l.loops.insert h _).size ≤ l.tally.loopsCompiled + 1
      rw [FinMap.size_insert hn]
      omega
  | bridge e p b i ops address length hs he hp =>
      refine ⟨hloops, ?_⟩
      have hsize : (l.bridges.insert b p).size ≤ l.bridges.size + 1 := by
        cases hb : l.bridges.find? b with
        | none => exact (FinMap.size_insert hb p).le
        | some q =>
            rw [FinMap.size_insert_of_some hb]
            omega
      change l.tally.bridgesRetired + (l.bridges.insert b p).size ≤ l.tally.bridgesCompiled + 1
      omega
  | @retireBridge h p hb =>
      refine ⟨hloops, ?_⟩
      have hsize := FinMap.size_erase hb
      change l.tally.bridgesRetired + 1 + (l.bridges.erase h).size ≤ l.tally.bridgesCompiled
      omega
  | retireLoop hb hs hp => exact ⟨hretire hs, hbridges⟩
  | retireReplaced hb hs hp => exact ⟨hretire hs, hbridges⟩

/-! ## A monitor with one observer -/

def Monitor.heard (m : Monitor) : List Notice := m.observers.flatMap Observer.notices

def Tells (ns : List Notice) (loop : Handle) : Prop :=
  ∃ n ∈ ns, ∃ k kind, n.loop? = some (k, kind, loop)

/-- Each notice of a bridge comes behind one of its loop. -/
def Rooted (ns : List Notice) : Prop :=
  ∀ before n after parent bridge, ns = before ++ n :: after → n.bridge? = some (parent, bridge) →
    Tells before parent

theorem Rooted.concat {ns : List Notice} (h : Rooted ns) {n : Notice}
    (hn : ∀ parent bridge, n.bridge? = some (parent, bridge) → Tells ns parent) :
    Rooted (ns ++ [n]) := by
  intro before n' after parent bridge he hb
  rcases List.eq_nil_or_concat after with rfl | ⟨after, x, rfl⟩
  · obtain ⟨rfl, hx⟩ := List.append_inj' he rfl
    obtain rfl := (List.cons.inj hx).1
    exact hn parent bridge hb
  · rw [List.concat_eq_append, ← List.cons_append, ← List.append_assoc] at he
    exact h before n' after parent bridge (List.append_inj' he rfl).1 hb

/-- The one observer of the monitor had received `past`. Then the monitor told it `own`, which is
what the ledger counts. -/
structure Monitor.Records (past own : List Notice) (m : Monitor) : Prop where
  single : ∃ o, m.observers = [o]
  heard : m.heard = past ++ own
  counted : ∀ c, c ≠ .loopsRetired → c ≠ .bridgesRetired →
    m.ledger.tally.get c = own.countP fun n => n.counter = c
  covers : m.ledger.Covers
  told : ∀ h s, m.ledger.loops.find? h = some s → Tells own h
  rooted : Rooted own

theorem Monitor.records_new {os : List Observer} (ho : ∃ o, os = [o]) :
    Records (os.flatMap Observer.notices) [] { observers := os } where
  single := ho
  heard := (List.append_nil _).symm
  counted := by
    intro c _ _
    cases c <;> rfl
  covers := ⟨Nat.le_refl 0, Nat.le_refl 0⟩
  told := nofun
  rooted := by
    intro before n after parent bridge he
    cases before <;> cases he

theorem Tells.append {ns : List Notice} {h : Handle} (ht : Tells ns h) (ns' : List Notice) :
    Tells (ns ++ ns') h := by
  obtain ⟨n, hn, hk⟩ := ht
  exact ⟨n, List.mem_append_left _ hn, hk⟩

def Act.notice? : Act → Option Notice
  | .report r => r.notice?
  | .retire _ => none

section

variable {l l' : Ledger} {a : Act} {ns : List Notice}

theorem Ledger.Takes.told (ht : l.Takes a l')
    (hl : ∀ h s, l.loops.find? h = some s → Tells ns h) :
    ∀ h s, l'.loops.find? h = some s → Tells (ns ++ a.notice?.toList) h := by
  intro h s hs
  have hold : l.loops.find? h = some s → Tells (ns ++ a.notice?.toList) h :=
    fun hs => (hl h s hs).append _
  have herase : ∀ j, (l.loops.erase j).find? h = some s → l.loops.find? h = some s := by
    intro j hj
    rw [FinMap.find?_erase] at hj
    split_ifs at hj
    exact hj
  cases ht with
  | loop e k j ops kind address length hp hn =>
      rw [FinMap.find?_insert] at hs
      split_ifs at hs with hj
      · subst hj
        exact ⟨_, List.mem_append_right ns List.mem_cons_self, k, kind, rfl⟩
      · exact hold hs
  | retireLoop hb hj hp => exact hold (herase _ hs)
  | retireReplaced hb hj hp => exact hold (herase _ hs)
  | _ => exact hold hs

theorem Ledger.Takes.rooted (ht : l.Takes a l')
    (hl : ∀ h s, l.loops.find? h = some s → Tells ns h) (hns : Rooted ns) :
    Rooted (ns ++ a.notice?.toList) := by
  have hsilent : Rooted (ns ++ []) := by
    rw [List.append_nil]
    exact hns
  have hplain : ∀ n : Notice, n.bridge? = none → Rooted (ns ++ [n]) := by
    intro n hn
    apply hns.concat
    intro parent bridge hb
    rw [hn] at hb
    cases hb
  cases ht with
  | abort cause e k hp => exact hplain _ rfl
  | abortBridge cause e k hp => exact hplain _ rfl
  | loop e k h ops kind address length hp hn => exact hplain _ rfl
  | bridge e p b i ops address length hs he hp =>
      apply hns.concat
      rintro parent bridge ⟨⟩
      exact hl p _ hs
  | _ => exact hsilent

/-- What an accepted act adds to the records of the one observer, and to the counters. -/
theorem Monitor.heard_perform {s : Shapes × Monitor} (h : ∃ o, s.2.observers = [o])
    (ha : a.Taken s = true) :
    (∃ o, (a.perform s).2.observers = [o]) ∧
      (a.perform s).2.heard = s.2.heard ++ a.notice?.toList ∧
      ∀ c, c ≠ .loopsRetired → c ≠ .bridgesRetired → (a.perform s).2.ledger.tally.get c =
        s.2.ledger.tally.get c + a.notice?.toList.countP fun n => n.counter = c := by
  have hcount := fun c hloops hbridges => Event.get_perform (c := c) hloops hbridges (.call a) s
  obtain ⟨o, ho⟩ := h
  cases a with
  | retire j =>
      have hsame : ((Act.retire j).perform s).2.observers = s.2.observers := by
        rw [Act.perform, Monitor.fst_retire]
      refine ⟨⟨o, hsame.trans ho⟩, ?_, hcount⟩
      rw [heard, hsame]
      exact (List.append_nil _).symm
  | report r =>
      have hdelivery := delivery?_eq_some (taken_report_iff.1 ha).1
        (Ledger.takes_report_iff.1 (takes_of_taken ha))
      simp only [Event.perform, Event.delivery?, hdelivery] at hcount
      simp only [heard, observers_report, hdelivery, ho, Act.notice?]
      cases hn : r.notice? with
      | none =>
          rw [hn] at hcount
          exact ⟨⟨o, rfl⟩, by simp, hcount⟩
      | some n =>
          rw [hn] at hcount
          have hdeliver : ∀ d, (Observer.deliver d [o]).1 = [o.receive d] := by
            intro d
            unfold Observer.deliver
            split_ifs <;> rfl
          simp only [Option.map_some, Option.elim_some, hdeliver]
          exact ⟨⟨_, rfl⟩, by simp [Observer.notices, Observer.receive], hcount⟩

end

/-- An act that is accepted adds to what the monitor told, and another one does nothing. -/
theorem Monitor.kept_records (past : List Notice) :
    Monitor.Kept fun m => ∃ own, m.Records past own := by
  rintro a s ⟨own, h⟩
  by_cases ha : a.Taken s = true
  · have ht := takes_of_taken ha
    obtain ⟨hsingle, hheard, hcount⟩ := heard_perform h.single ha
    refine ⟨own ++ a.notice?.toList, ?_⟩
    constructor
    case single => exact hsingle
    case heard => rw [hheard, h.heard, List.append_assoc]
    case counted =>
      intro c hloops hbridges
      rw [hcount c hloops hbridges, h.counted c hloops hbridges, List.countP_append]
    case covers => exact ht.covers h.covers
    case told => exact ht.told h.told
    case rooted => exact ht.rooted h.told h.rooted
  · rw [perform_of_not_taken ha]
    exact ⟨own, h⟩

end Lifecycle

/-! ## Sessions -/

namespace Command

def Task.runs : Task → Nat
  | .greenSums pairs => pairs.length
  | _ => 1

/-- The parts of one record that the monitors of the tracers told, one behind the other. -/
inductive Told : List Tracer → List (List Notice) → Prop
  | nil : Told [] []
  | concat {ts : List Tracer} {parts : List (List Notice)} {t : Tracer} {own : List Notice}
      (hts : Told ts parts) (ht : t.monitor.Records parts.flatten own) :
      Told (ts ++ [t]) (parts ++ [own])

namespace Told

variable {ts : List Tracer} {parts : List (List Notice)}

theorem length_eq (h : Told ts parts) : parts.length = ts.length := by
  induction h with
  | nil => rfl
  | concat hts hrec ih =>
      rw [List.length_append, List.length_append, ih]
      rfl

theorem of_getLast? (h : Told ts parts) {t : Tracer} (ht : ts.getLast? = some t) :
    (∃ o, t.monitor.observers = [o]) ∧ t.monitor.heard = parts.flatten := by
  cases h with
  | nil => cases ht
  | concat hts hrec =>
      rw [List.getLast?_concat] at ht
      obtain rfl := Option.some.inj ht
      refine ⟨hrec.single, ?_⟩
      rw [hrec.heard, List.flatten_concat]

theorem get_eq (h : Told ts parts) {c : Tally.Counter} (hloops : c ≠ .loopsRetired)
    (hbridges : c ≠ .bridgesRetired) : (ts.map fun t => t.monitor.ledger.tally.get c).sum =
      parts.flatten.countP fun n => n.counter = c := by
  induction h with
  | nil => rfl
  | concat hts hrec ih =>
      rw [List.map_append, List.sum_append, ih, List.flatten_concat, List.countP_append,
        List.map_singleton, List.sum_singleton, hrec.counted c hloops hbridges]

theorem covers (h : Told ts parts) : ∀ t ∈ ts, t.monitor.ledger.Covers := by
  induction h with
  | nil => exact List.forall_mem_nil _
  | concat hts hrec ih =>
      exact List.forall_mem_append.2 ⟨ih, List.forall_mem_singleton.2 hrec.covers⟩

theorem rooted (h : Told ts parts) : ∀ own ∈ parts, Rooted own := by
  induction h with
  | nil => exact List.forall_mem_nil _
  | concat hts hrec ih =>
      exact List.forall_mem_append.2 ⟨ih, List.forall_mem_singleton.2 hrec.rooted⟩

end Told

namespace Session

variable {s : Session} {parts : List (List Notice)}

theorem notices_eq (h : Told s.tracers parts) : s.notices = parts.flatten := by
  unfold notices
  cases ht : s.tracers.getLast? with
  | none =>
      have hlen := h.length_eq
      rw [List.getLast?_eq_none_iff.1 ht] at hlen
      rw [List.eq_nil_of_length_eq_zero hlen, List.flatten_nil]
  | some t => exact (h.of_getLast? ht).2

theorem records_next (h : Told s.tracers parts) (settings : Settings) (heap : Heap) :
    (s.next settings heap).monitor.Records parts.flatten [] := by
  rw [← notices_eq h]
  unfold next notices
  cases ht : s.tracers.getLast? with
  | none => exact Monitor.records_new ⟨{}, rfl⟩
  | some t => exact Monitor.records_new (h.of_getLast? ht).1

end Session

/-- If the step ends well, `n` programs were run, which have added to the record. -/
def Runs {α : Type} (n : Nat) (x : Step α) : Prop :=
  ∀ s a s' parts, x s = .ok a s' → Told s.tracers parts →
    s'.tracers.length = s.tracers.length + n ∧ ∃ parts', Told s'.tracers parts'

section

variable {α β : Type} {m n : Nat} {x : Step α}

theorem runs_of_tracers_eq (h : ∀ s a s', x s = .ok a s' → s'.tracers = s.tracers) : Runs 0 x := by
  intro s a s' parts hx htold
  rw [h s a s' hx]
  exact ⟨rfl, parts, htold⟩

theorem runs_pure (a : α) : Runs 0 (pure a : Step α) := by
  apply runs_of_tracers_eq
  rintro s _ _ ⟨⟩
  rfl

theorem runs_printLine (text : String) : Runs 0 (printLine text) := by
  apply runs_of_tracers_eq
  rintro s _ _ ⟨⟩
  rfl

/-- A step that passes on what it is given, and ends the session with what went wrong. -/
theorem answer_eq_ok_iff {ε : Type} {answer : Except ε α → Step α}
    (hok : ∀ a, answer (.ok a) = pure a) (herror : ∀ e s a s', answer (.error e) s ≠ .ok a s')
    {r : Except ε α} {s s' : Session} {a : α} :
    answer r s = .ok a s' ↔ r = .ok a ∧ s = s' := by
  constructor
  · intro h
    cases r with
    | error e => exact absurd h (herror e s a s')
    | ok b =>
        rw [hok] at h
        cases h
        exact ⟨rfl, rfl⟩
  · rintro ⟨rfl, rfl⟩
    rw [hok]
    rfl

theorem orFail_eq_ok_iff {r : Except Error α} {s s' : Session} {a : α} :
    orFail r s = .ok a s' ↔ r = .ok a ∧ s = s' :=
  answer_eq_ok_iff (fun _ => rfl) nofun

theorem orFault_eq_ok_iff {r : Except Fault α} {s s' : Session} {a : α} :
    orFault r s = .ok a s' ↔ r = .ok a ∧ s = s' :=
  answer_eq_ok_iff (fun _ => rfl) nofun

theorem runs_orFail (r : Except Error α) : Runs 0 (orFail r) := by
  apply runs_of_tracers_eq
  intro s a s' h
  rw [(orFail_eq_ok_iff.1 h).2]

theorem bind_eq_ok_iff {f : α → Step β} {s s' : Session} {b : β} :
    (x >>= f) s = .ok b s' ↔ ∃ a s₁, x s = .ok a s₁ ∧ f a s₁ = .ok b s' := by
  simp only [bind, EStateM.bind]
  cases x s with
  | error e s₁ => simp
  | ok a s₁ =>
      constructor
      · exact fun h => ⟨a, s₁, rfl, h⟩
      · rintro ⟨_, _, ⟨⟩, h⟩
        exact h

theorem Runs.bind {f : α → Step β} (hx : Runs m x) (hf : ∀ a, Runs n (f a)) :
    Runs (m + n) (x >>= f) := by
  intro s b s' parts h htold
  obtain ⟨a, s₁, hxs, hfs⟩ := bind_eq_ok_iff.1 h
  obtain ⟨hm, parts₁, htold₁⟩ := hx s a s₁ parts hxs htold
  obtain ⟨hn, htold'⟩ := hf a s₁ b s' parts₁ hfs htold₁
  exact ⟨by omega, htold'⟩

theorem runs_runProgram {σ : Type} (settings : Settings) (heap : Heap) (p : Program σ) (s : σ) :
    Runs 1 (runProgram settings heap p s) := by
  intro session a session' parts h htold
  have hkept := p.upholds_run (Monitor.kept_records parts.flatten)
    (t := session.next settings heap) ⟨[], Session.records_next htold settings heap⟩ s
  obtain ⟨_, _, ⟨⟩, h⟩ := bind_eq_ok_iff.1 h
  cases hr : p.run (session.next settings heap, s) with
  | error f ts =>
      rw [hr] at h
      cases h
  | ok r ts =>
      rw [hr] at h hkept
      cases r with
      | error e => cases h
      | ok _ =>
          cases h
          obtain ⟨own, hrec⟩ := hkept
          exact ⟨List.length_append, parts ++ [own], htold.concat hrec⟩

theorem runs_sumPair (settings : Settings) (e : EntryPoint) (pair : String) :
    Runs 1 (sumPair settings e pair) :=
  (runs_orFail _).bind fun _ => (runs_runProgram settings _ _ _).bind fun _ => runs_printLine _

theorem runs_sumPairs (settings : Settings) (e : EntryPoint) (pairs : List String) :
    Runs pairs.length (sumPairs settings e pairs) := by
  induction pairs with
  | nil => exact runs_pure ()
  | cons pair pairs ih =>
      rw [List.length_cons, Nat.add_comm]
      exact (runs_sumPair settings e pair).bind fun _ => ih

theorem Task.runs_perform (settings : Settings) (task : Task) :
    Runs task.runs (task.perform settings) := by
  cases task with
  | fieldSum a x =>
      exact (runs_orFail _).bind fun _ => (runs_runProgram settings _ _ _).bind fun _ =>
        runs_printLine _
  | greenSums pairs => exact runs_sumPairs settings _ pairs
  | flipping limit flip =>
      exact (runs_runProgram settings _ _ _).bind fun _ => runs_printLine _
  | scaledSum n switchAt =>
      exact (runs_orFail _).bind fun _ => (runs_runProgram settings _ _ _).bind fun _ =>
        (runs_printLine _).bind fun _ => runs_printLine _

end

/-! ## What is printed -/

/-- What a report on the session prints: as JSON, the notices; as text, the notices and the summary
of the merged tallies. -/
inductive Session.Reports (s : Session) : Bool → String → Prop where
  | json : s.Reports true (Notice.jsonLines s.notices)
  | text (total : Tally) (summary : String) (htally : s.tally = .ok total)
      (hsummary : total.summary = .ok summary) :
      s.Reports false (String.join (s.notices.map fun n => toString n ++ "\n") ++ "\n" ++
        (summary ++ "\n") ++ (versionLine ++ "\n"))

/-- The printed lines carry all counters of the merged tally: behind the same record, another tally
has another summary. -/
theorem Session.Reports.tally_eq {s s' : Session} {text : String} (h : s.Reports false text)
    (h' : s'.Reports false text) (hnotices : s.notices = s'.notices) : s.tally = s'.tally := by
  cases h with
  | text total summary htally hsummary =>
      generalize htext : String.join _ ++ _ ++ _ ++ _ = text' at h'
      cases h' with
      | text total' summary' htally' hsummary' =>
          rw [hnotices] at htext
          have hchars := congrArg String.toList htext
          simp only [String.toList_append, List.append_cancel_left_eq,
            List.append_cancel_right_eq] at hchars
          obtain rfl := String.toList_inj.1 hchars
          rw [htally, htally', Tally.eq_of_summary hsummary hsummary']

theorem Session.reports_of_report {s s' : Session} {json : Bool}
    (h : report json s = .ok () s') :
    ∃ text, s.Reports json text ∧ s'.printed = s.printed ++ text := by
  obtain ⟨_, _, ⟨⟩, h⟩ := bind_eq_ok_iff.1 h
  cases json with
  | true =>
      cases h
      exact ⟨_, .json, rfl⟩
  | false =>
      obtain ⟨_, _, ⟨⟩, h⟩ := bind_eq_ok_iff.1 h
      obtain ⟨_, _, ⟨⟩, h⟩ := bind_eq_ok_iff.1 h
      obtain ⟨total, _, htotal, h⟩ := bind_eq_ok_iff.1 h
      obtain ⟨htally, rfl⟩ := orFault_eq_ok_iff.1 htotal
      obtain ⟨summary, _, hsum, h⟩ := bind_eq_ok_iff.1 h
      obtain ⟨hsummary, rfl⟩ := orFault_eq_ok_iff.1 hsum
      obtain ⟨_, _, ⟨⟩, h⟩ := bind_eq_ok_iff.1 h
      cases h
      refine ⟨_, .text total summary htally hsummary, ?_⟩
      simp only [String.append_assoc, String.empty_append]

/-- A command that ends well has performed its task and reported. -/
theorem Invocation.output_of_exit {i : Invocation} {read : String → Except FileProblem ByteArray}
    (h : (i.output read).exit = 0) : ∃ settings s s', i.settings read = .ok settings ∧
      i.task.perform settings {} = .ok () s ∧ report i.json s = .ok () s' ∧
        (i.output read).stdout = s'.printed := by
  unfold output at h ⊢
  dsimp only at h ⊢
  split at h
  case h_1 heq =>
    obtain ⟨settings, _, horFail, hrest⟩ := bind_eq_ok_iff.1 heq
    obtain ⟨hsettings, rfl⟩ := orFail_eq_ok_iff.1 horFail
    obtain ⟨_, s, hperform, hreport⟩ := bind_eq_ok_iff.1 hrest
    exact ⟨settings, s, _, hsettings, hperform, hreport, rfl⟩
  case h_2 failure s heq =>
    cases failure with
    | error e =>
        change exitCode e = 0 at h
        unfold exitCode at h
        split at h <;> cases h
    | fault f => cases h

/-! ## The summary -/

namespace Session

variable {s : Session} {total : Tally}

theorem get_of_tally (h : s.tally = .ok total) (c : Tally.Counter) :
    total.get c = (s.tracers.map fun t => t.monitor.ledger.tally.get c).sum := by
  rw [Tally.tally_eq_mergeAll] at h
  rw [(Tally.mergedAll _).adds total h c, List.map_map]
  rfl

theorem get_le_of_tally (h : s.tally = .ok total) {c d : Tally.Counter}
    (hcd : ∀ t ∈ s.tracers, t.monitor.ledger.tally.get c ≤ t.monitor.ledger.tally.get d) :
    total.get c ≤ total.get d := by
  rw [get_of_tally h, get_of_tally h]
  exact List.sum_le_sum hcd

theorem agrees_of_tally (h : s.tally = .ok total) {parts : List (List Notice)}
    (htold : Told s.tracers parts) : total.Agrees s.notices := by
  apply Tally.agrees_of_counter
  intro c hloops hbridges
  rw [get_of_tally h, notices_eq htold]
  exact htold.get_eq hloops hbridges

end Session

/-- A command that ends well prints the record of its runs, to which each has added its part, and,
unless it prints JSON, a summary, whose lines carry the counters of the merged tally
(`Session.Reports.tally_eq`). This tally has counted the loops, the bridges and the aborts of each
cause in the record, and no more loops and bridges retired than compiled; and in the part of each
run a bridge comes behind its loop. -/
theorem summary_of_success (i : Invocation) (read : String → Except FileProblem ByteArray)
    (h : (i.output read).exit = 0) :
    ∃ (settings : Settings) (s : Session) (text : String) (parts : List (List Notice)),
      i.settings read = .ok settings ∧ i.task.perform settings {} = .ok () s ∧
      s.Reports i.json text ∧ (i.output read).stdout = s.printed ++ text ∧
      (∀ total, s.tally = .ok total → total.Agrees s.notices ∧
        total.loopsRetired ≤ total.loopsCompiled ∧ total.bridgesRetired ≤ total.bridgesCompiled) ∧
      s.tracers.length = i.task.runs ∧ Told s.tracers parts ∧ s.notices = parts.flatten ∧
      ∀ own ∈ parts, Rooted own := by
  obtain ⟨settings, s, s', hsettings, hperform, hreport, hstdout⟩ := Invocation.output_of_exit h
  obtain ⟨text, htext, hprinted⟩ := Session.reports_of_report hreport
  obtain ⟨hlen, parts, htold⟩ := Task.runs_perform settings i.task {} () s [] hperform .nil
  have hruns : s.tracers.length = i.task.runs := hlen.trans (Nat.zero_add _)
  refine ⟨settings, s, text, parts, hsettings, hperform, htext, hstdout.trans hprinted, ?_, hruns,
    htold, Session.notices_eq htold, htold.rooted⟩
  intro total htotal
  refine ⟨Session.agrees_of_tally htotal htold, ?_, ?_⟩
  · exact Session.get_le_of_tally htotal (c := .loopsRetired) (d := .loopsCompiled) fun t ht =>
      Nat.le_of_add_right_le (htold.covers t ht).loops
  · exact Session.get_le_of_tally htotal (c := .bridgesRetired) (d := .bridgesCompiled) fun t ht =>
      Nat.le_of_add_right_le (htold.covers t ht).bridges

/-- Two runs, in which the two loops have the same handle. -/
theorem summary_of_success_twoSums :
    let i : Invocation := ⟨.greenSums ["1,4", "2,4"], none, none, false⟩
    (i.output fun _ => .error .missing).exit = 0 ∧
      ∃ (s : Session) (text : String) (parts : List (List Notice)), s.Reports false text ∧
        (i.output fun _ => .error .missing).stdout = s.printed ++ text ∧
        s.tracers.length = 2 ∧ Told s.tracers parts ∧ s.notices = parts.flatten ∧
        ∀ total, s.tally = .ok total → total.Agrees s.notices := by
  intro i
  have h : (i.output fun _ => .error .missing).exit = 0 := by decide +kernel
  obtain ⟨_, s, text, parts, -, -, htext, hstdout, htotal, hlen, htold, hnotices, -⟩ :=
    summary_of_success i _ h
  exact ⟨h, s, text, parts, htext, hstdout, hlen, htold, hnotices,
    fun total ht => (htotal total ht).1⟩

end Command

end HotLoop
