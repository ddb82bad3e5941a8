import HotLoop.Proofs.Conduct

/-!
# Code cache, ledger and journal agree

The code cache and the ledger learn of a compilation by different calls, and an observer can fail
between them. They agree all the same: at every moment of every run and between all calls they tell
the same live loops and bridges, the counters add up, and each trace that the journal tells the
beginning of has ended just once or is still open, as long as no bridge went uncounted. The ledger
never refuses a report that it can count.
-/

namespace HotLoop

open Code Journal Lifecycle Trace

/-- Code cache, ledger and failure counts tell the same. -/
structure Tracer.Agrees (t : Tracer) : Prop where
  liveLoop : ∀ s, (t.monitor.ledger.phase s).liveLoop? = t.cache.loop? s
  loops : ∀ h s, t.monitor.ledger.loops.find? h = some s ↔
    ∃ a, t.cache.get? h = some a ∧ a.kind = .loop ∧ a.site = s
  bridges : ∀ b p, t.monitor.ledger.bridges.find? b = some p ↔
    ∃ a i, t.cache.get? b = some a ∧ a.kind = .bridge p i
  /-- A live bridge has a live loop that knows it. -/
  rooted : ∀ b a p i, t.cache.get? b = some a → a.kind = .bridge p i →
    (∃ l, t.cache.get? p = some l ∧ l.kind = .loop) ∧ t.cache.bridge? p i = some b
  loopsCompiled : t.monitor.ledger.tally.loopsCompiled =
    t.monitor.ledger.tally.loopsRetired + t.cache.liveLoops
  bridgesCompiled : t.monitor.ledger.tally.bridgesCompiled =
    t.monitor.ledger.tally.bridgesRetired + t.cache.liveBridges
  retiredCount : t.cache.retiredCount =
    t.monitor.ledger.tally.loopsRetired + t.monitor.ledger.tally.bridgesRetired
  failures : ∀ h i n, t.failures.find? (h, i) = some n →
    ∃ a, t.cache.get? h = some a ∧ a.kind = .loop

namespace Tracer

variable {t : Tracer} {m : Mode} {attempt : Option Site}

theorem size_loops (hc : t.cache.Sound) (hf : Follows t.cache t.monitor.ledger attempt) :
    t.monitor.ledger.loops.size = t.cache.liveLoops := by
  refine FinMap.size_eq_countP fun h => ?_
  simp only [hf.loops, hc.loop_iff, decide_eq_true_iff]
  constructor
  · rintro ⟨s, a, ha, hk, -⟩
    exact ⟨a, ha, hk⟩
  · rintro ⟨a, ha, hk⟩
    exact ⟨a.site, a, ha, hk, rfl⟩

theorem size_bridges (hb : (t.books m).Balanced) :
    t.monitor.ledger.bridges.size = t.cache.liveBridges := by
  refine FinMap.size_eq_countP fun h => ?_
  have hbridges : ∀ p, t.monitor.ledger.bridges.find? h = some p ↔ ∃ i, t.cache.HangsOff h p i :=
    hb.bridges h
  simp only [hbridges, decide_eq_true_iff]
  constructor
  · rintro ⟨p, i, a, ha, hk⟩
    refine ⟨a, ha, fun hl => ?_⟩
    have hl : a.kind = .loop := hl
    rw [hk] at hl
    cases hl
  · rintro ⟨a, ha, hl⟩
    cases hk : a.kind with
    | loop => exact absurd hk hl
    | bridge p i => exact ⟨p, i, a, ha, hk⟩

theorem agrees_of_balanced (hc : t.cache.Sound) (hf : Follows t.cache t.monitor.ledger attempt)
    (hb : (t.books m).Balanced) : t.Agrees := by
  have hloops : t.monitor.ledger.tally.loopsCompiled =
      t.monitor.ledger.tally.loopsRetired + t.monitor.ledger.loops.size := hb.ledger.loops
  have hbridges : t.monitor.ledger.tally.bridgesCompiled =
      t.monitor.ledger.tally.bridgesRetired + t.monitor.ledger.bridges.size := hb.ledger.bridges
  have hinstalled : t.cache.installed =
      t.monitor.ledger.tally.loopsCompiled + t.monitor.ledger.tally.bridgesCompiled := hb.installed
  rw [size_loops hc hf] at hloops
  rw [size_bridges hb] at hbridges
  rw [Cache.installed, ← Cache.liveLoops_add_liveBridges] at hinstalled
  constructor
  case liveLoop => exact hf.liveLoop?_eq
  case loops => exact fun h s => (hf.loops s h).trans (hc.loop_iff s h)
  case bridges =>
    intro b p
    refine (hb.bridges b p).trans ⟨?_, ?_⟩
    · rintro ⟨i, a, ha, hk⟩
      exact ⟨a, i, ha, hk⟩
    · rintro ⟨a, i, ha, hk⟩
      exact ⟨i, a, ha, hk⟩
  case rooted =>
    intro b a p i ha hk
    have hknows : t.cache.Knows p i b := hb.rooted b p i ⟨a, ha, hk⟩
    exact ⟨(hc.of_knows hknows).1, hc.bridge?_eq_some_iff.2 hknows⟩
  case loopsCompiled => exact hloops
  case bridgesCompiled => exact hbridges
  case retiredCount => omega
  case failures => exact hb.failures

theorem idle_new (settings : Settings) :
    Idle (Tracer.books { settings := settings } .interpreting) { settings := settings } where
  orderly := orderly_new settings
  books := Books.Leads.refl _

end Tracer

/-! ## Agreement -/

/-- At every moment of every run, and between all calls, code cache and ledger agree. Runs may
succeed, fail, or be ended by an observer. -/
theorem agrees_throughout (settings : Settings) (cs : List Call)
    (hcs : behave cs { settings := settings } = true)
    (hno : .countOverflow ∉ faults cs { settings := settings }) :
    (∀ f ∈ moments cs { settings := settings }, f.tracer.Agrees) ∧
      ∀ past, past <+: cs →
        (past.foldl (fun t c => c.perform t) ({ settings := settings } : Tracer)).Agrees := by
  have hnew := Books.balanced_new settings
  obtain ⟨hms, -, hpasts⟩ := calls_reach cs (Tracer.idle_new settings) hcs
  constructor
  · intro f hf
    obtain ⟨ho, hlead⟩ := hms f hf
    exact Tracer.agrees_of_balanced ho.sound ho.follows ((hlead hno).balanced hnew)
  · intro past hpast
    obtain ⟨b, hidle, hb⟩ := hpasts past hpast
    obtain rfl := hb hno
    have ho := hidle.orderly ⟨0, "", [], []⟩
    exact Tracer.agrees_of_balanced ho.sound ho.follows (hidle.books.balanced hnew)

/-- An observer that fails at its first notice if that is of a loop. -/
def startled : Observer where
  fails inbox d := inbox.isEmpty && decide (d.notice.hook = .compile)

def startledRuns : List Call :=
  let p := Program.flipping (Program.flippingEntry 0) 8 4
  [.addObserver startled, .run p 0, .run p 0]

theorem agrees_throughout_startledRuns :
    let t := startledRuns.foldl (fun t c => c.perform t)
      { settings := { threshold := 1, traceEagerness := 1 } }
    behave startledRuns { settings := { threshold := 1, traceEagerness := 1 } } = true ∧
      t.Agrees ∧ t.cache.liveLoops = 1 ∧ t.cache.liveBridges = 1 :=
  have hb : behave startledRuns { settings := { threshold := 1, traceEagerness := 1 } } = true := by
    decide +kernel
  ⟨hb, (agrees_throughout _ startledRuns hb (by decide +kernel)).2 startledRuns (List.prefix_refl _),
    by decide +kernel, by decide +kernel⟩

/-! ## Faults -/

/-- Nobody but an observer ends a run with a fault, also after an observer has done so before, unless
a loop has so many bridges that the next one cannot be counted: no report breaks the contract, and no
bridge is installed on what is not a live loop. -/
theorem faults_observerFailed (settings : Settings) (cs : List Call)
    (hcs : behave cs { settings := settings } = true) :
    ∀ err ∈ faults cs { settings := settings },
      (∃ hook, err = .observerFailed hook) ∨ err = .countOverflow :=
  (calls_reach cs (Tracer.idle_new settings) hcs).2.1

theorem faults_observerFailed_startledRuns :
    faults startledRuns { settings := { threshold := 1, traceEagerness := 1 } } =
        [.observerFailed .compile] ∧
      ∀ err ∈ faults startledRuns { settings := { threshold := 1, traceEagerness := 1 } },
        (∃ hook, err = .observerFailed hook) ∨ err = .countOverflow :=
  ⟨by decide +kernel, faults_observerFailed _ startledRuns (by decide +kernel)⟩

/-! ## Attempts -/

/-- Every trace that was begun has ended in a loop, a bridge or an abort, once, or is the one that is
open; and while no run is on, none is open and no site is being compiled. Runs may succeed, fail, or
be ended by an observer. -/
theorem attempts_ended_once (settings : Settings) (cs : List Call)
    (hcs : behave cs { settings := settings } = true)
    (hno : .countOverflow ∉ faults cs { settings := settings }) :
    (∀ f ∈ moments cs { settings := settings },
        f.tracer.begun = f.tracer.monitor.ledger.tally.loopsCompiled +
          f.tracer.monitor.ledger.tally.bridgesCompiled +
          f.tracer.monitor.ledger.tally.aborts.total +
          if f.mode.recording?.isSome then 1 else 0) ∧
      ∀ past, past <+: cs →
        let t := past.foldl (fun t c => c.perform t) ({ settings := settings } : Tracer)
        t.begun = t.monitor.ledger.tally.loopsCompiled + t.monitor.ledger.tally.bridgesCompiled +
            t.monitor.ledger.tally.aborts.total ∧
          ∀ s, t.monitor.ledger.phase s ≠ .compiling := by
  have hnew := Books.balanced_new settings
  obtain ⟨hms, -, hpasts⟩ := calls_reach cs (Tracer.idle_new settings) hcs
  constructor
  · intro f hf
    obtain ⟨-, hlead⟩ := hms f hf
    exact ((hlead hno).balanced hnew).begun
  · intro past hpast
    obtain ⟨b, hidle, hb⟩ := hpasts past hpast
    obtain rfl := hb hno
    have ho := hidle.orderly ⟨0, "", [], []⟩
    refine ⟨(hidle.books.balanced hnew).begun, fun s hs => ?_⟩
    cases (ho.follows.compiling s).1 hs

/-- The observer fails when the loop is compiled. Then the weight is written while a bridge is traced,
and in the end from outside. -/
def reweighing : List Call :=
  .addObserver startled :: weightedSum ++
    [.run (Program.scaledSum (Program.scaledSumEntry 0) ⟨0⟩ 8 4 7) {}, .setField ⟨⟨0⟩, "scale"⟩ 5]

theorem attempts_ended_once_reweighing :
    let t := reweighing.foldl (fun t c => c.perform t)
      { settings := { threshold := 1, traceEagerness := 1 } }
    t.begun = 3 ∧ t.begun = t.monitor.ledger.tally.loopsCompiled +
      t.monitor.ledger.tally.bridgesCompiled + t.monitor.ledger.tally.aborts.total :=
  ⟨by decide +kernel, ((attempts_ended_once { threshold := 1, traceEagerness := 1 } reweighing
    (by decide +kernel) (by decide +kernel)).2 reweighing (List.prefix_refl _)).1⟩

end HotLoop
