import HotLoop.Proofs.Accounts
import HotLoop.Proofs.Occasions
import HotLoop.Proofs.Steadiness

/-!
# What is counted

A pass of a loop head is counted for its site if no trace stays open there and no loop is entered,
and a failure of a branch guard is counted if no bridge takes over. `ticks` lists what is counted
along a run. Counts begin anew where a trace begins, and a loop takes its counts along when it is
retired; what is counted and what has begun always tell the count.
-/

namespace HotLoop

open Code Trace

/-! ## Ticks -/

inductive Tick where
  | pass (s : Site)
  /-- A pass, with which a trace of the loop begins. -/
  | begun (s : Site)
  /-- A pass, with which a trace was to begin, but an earlier attempt was never ended. -/
  | refused (s : Site)
  | entered (loop : Handle)
  | failed (loop : Handle) (failIndex : Nat)
  /-- A failure, with which the trace of a bridge begins. -/
  | extended (loop : Handle) (failIndex : Nat)
  deriving DecidableEq

namespace Tick

inductive Subject where
  | site (s : Site)
  | loop (h : Handle)
  | guard (h : Handle) (failIndex : Nat)

@[simp] def subject : Tick → Subject
  | .pass s => .site s
  | .begun s => .site s
  | .refused s => .site s
  | .entered h => .loop h
  | .failed h i => .guard h i
  | .extended h i => .guard h i

def ofHead (s : Site) : EStateM.Result Fault Tracer Mode → Option Tick
  | .ok (.running h _ _) _ => some (.entered h)
  | .ok (.tracingLoop _) _ => some (.begun s)
  | .ok _ _ => some (.pass s)
  | .error err _ => if err.ofBegin then some (.refused s) else none

def ofFailure (h : Handle) (i : Nat) : Mode → Option Tick
  | .runningBridge _ => none
  | .tracingBridge _ _ _ => some (.extended h i)
  | _ => some (.failed h i)

theorem count_concat (ts : List Tick) (x y : Tick) :
    (ts ++ [x]).count y = ts.count y + if x = y then 1 else 0 := by
  simp [List.count_append, List.count_singleton]

theorem count_concat_of_subject {x y : Tick} (h : x.subject ≠ y.subject) (ts : List Tick) :
    (ts ++ [x]).count y = ts.count y := by
  rw [count_concat, if_neg fun hxy => h (congrArg subject hxy), Nat.add_zero]

end Tick

def Frame.staysOpen (f : Frame) (k : Key) : Bool :=
  f.mode.recording?.any fun r => decide (r.key ≠ k)

def Frame.headTick (f : Frame) (k : Key) (r : EStateM.Result Fault Tracer Mode) : Option Tick :=
  if f.staysOpen k then none else Tick.ofHead (f.entry.site k) r

def Occasion.tick? : Occasion → Option Tick
  | .head f k => f.headTick k (Tracer.mergePoint f.entry k f.mode f.tracer)
  | .branch f cond =>
    (f.failing? cond).bind fun x => Tick.ofFailure x.1 x.2 (f.tracer.guardFailed x.1 x.2).2
  | .breakOff _ _ => none

def ticks (os : List Occasion) : List Tick := os.filterMap Occasion.tick?

theorem ticks_concat (os : List Occasion) (o : Occasion) :
    ticks (os ++ [o]) = ticks os ++ o.tick?.toList := by
  rw [ticks, List.filterMap_append]
  cases ho : o.tick? <;> simp [ticks, ho]

namespace Tracer

/-- The counts of the tracer are what these ticks have left. The passes of a site are `threshold` for
each trace that began, or that was to begin, and those counted since, which are fewer. So it is with
the failures of a branch guard of a live loop. For a handle that is not given out yet, nothing was
counted. -/
structure Tallies (g : Settings) (ts : List Tick) (t : Tracer) : Prop where
  hits : ∀ s, ts.count (.pass s) + ts.count (.begun s) + ts.count (.refused s) =
    g.threshold * (ts.count (.begun s) + ts.count (.refused s)) + t.hits.findD s 0
  hits_lt : ∀ s, t.hits.findD s 0 < g.threshold
  entries : ∀ h n, t.cache.Entered h n → ts.count (.entered h) = n
  failures : ∀ h n, t.cache.Entered h n → ∀ i, ts.count (.failed h i) + ts.count (.extended h i) =
    g.traceEagerness * ts.count (.extended h i) + t.failures.findD (h, i) 0
  failures_lt : ∀ h n, t.cache.Entered h n →
    ∀ i, t.failures.findD (h, i) 0 < g.traceEagerness

variable {g : Settings} {n : Nat} {ts : List Tick} {x : Tick} {t t' : Tracer} {e : EntryPoint}
  {k : Key} {m : Mode} {s : Site} {h : Handle} {i c : Nat}

namespace Tallies

theorem new (ht : g.threshold ≠ 0) (he : g.traceEagerness ≠ 0) :
    Tallies g [] { settings := g } := by
  refine ⟨fun _ => rfl, fun _ => Nat.pos_of_ne_zero ht, ?_, fun _ _ _ _ => rfl,
    fun _ _ _ _ => Nat.pos_of_ne_zero he⟩
  rintro h n (⟨a, ha, -⟩ | ⟨-, rfl⟩)
  · cases ha
  · rfl

theorem steady (ht : t.Tallies g ts) (hs : t.Steady t') : t'.Tallies g ts where
  hits := fun s => by rw [hs.hits]; exact ht.hits s
  hits_lt := fun s => by rw [hs.hits]; exact ht.hits_lt s
  entries := fun j n he => ht.entries j n (hs.entered j n he)
  failures := fun j n he i => by
    rw [hs.failures j n he]
    exact ht.failures j n (hs.entered j n he) i
  failures_lt := fun j n he i => by
    rw [hs.failures j n he]
    exact ht.failures_lt j n (hs.entered j n he) i

theorem site (ht : t.Tallies g ts) (hs : Counted s c t t') (hx : x.subject = .site s)
    (hc : c < g.threshold)
    (heq : (ts ++ [x]).count (.pass s) + (ts ++ [x]).count (.begun s) +
        (ts ++ [x]).count (.refused s) =
      g.threshold * ((ts ++ [x]).count (.begun s) + (ts ++ [x]).count (.refused s)) + c) :
    t'.Tallies g (ts ++ [x]) := by
  have hother : ∀ {y : Tick}, y.subject ≠ .site s → (ts ++ [x]).count y = ts.count y :=
    fun hy => Tick.count_concat_of_subject (fun hxy => hy (hxy.symm.trans hx)) ts
  constructor
  case hits =>
    intro s'
    rw [hs.hits, FinMap.findD_insert]
    split_ifs with hs'
    · rw [hs']
      exact heq
    · rw [hother (by simpa using hs'), hother (by simpa using hs'), hother (by simpa using hs')]
      exact ht.hits s'
  case hits_lt =>
    intro s'
    rw [hs.hits, FinMap.findD_insert]
    split_ifs
    · exact hc
    · exact ht.hits_lt s'
  case entries =>
    intro j n he
    rw [hother (by simp)]
    exact ht.entries j n (hs.cache ▸ he)
  case failures =>
    intro j n he i
    rw [hother (by simp), hother (by simp), hs.failures]
    exact ht.failures j n (hs.cache ▸ he) i
  case failures_lt =>
    intro j n he i
    rw [hs.failures]
    exact ht.failures_lt j n (hs.cache ▸ he) i

theorem guard (ht : t.Tallies g ts) (hx : x.subject = .guard h i) (hc : c < g.traceEagerness)
    (heq : (∃ n, t.cache.Entered h n) → (ts ++ [x]).count (.failed h i) +
        (ts ++ [x]).count (.extended h i) = g.traceEagerness * (ts ++ [x]).count (.extended h i) + c)
    (hcache : t'.cache = t.cache) (hh : t'.hits = t.hits)
    (hf : ∀ j n, t.cache.Entered j n → ∀ i', t'.failures.findD (j, i') 0 =
      if (j, i') = (h, i) then c else t.failures.findD (j, i') 0) : t'.Tallies g (ts ++ [x]) := by
  have hother : ∀ {y : Tick}, y.subject ≠ .guard h i → (ts ++ [x]).count y = ts.count y :=
    fun hy => Tick.count_concat_of_subject (fun hxy => hy (hxy.symm.trans hx)) ts
  constructor
  case hits =>
    intro s'
    rw [hother (by simp), hother (by simp), hother (by simp), hh]
    exact ht.hits s'
  case hits_lt => exact fun s' => hh ▸ ht.hits_lt s'
  case entries =>
    intro j n hj
    rw [hother (by simp)]
    exact ht.entries j n (hcache ▸ hj)
  case failures =>
    intro j n hj i'
    rw [hcache] at hj
    rw [hf j n hj]
    split_ifs with hji
    · obtain ⟨rfl, rfl⟩ := Prod.mk.inj hji
      exact heq ⟨n, hj⟩
    · rw [hother (by simpa using hji), hother (by simpa using hji)]
      exact ht.failures j n hj i'
  case failures_lt =>
    intro j n hj i'
    rw [hcache] at hj
    rw [hf j n hj]
    split_ifs
    · exact hc
    · exact ht.failures_lt j n hj i'

theorem loop (ht : t.Tallies g ts) (hc : t.cache.Sound) {a : Artifact} (ha : t.cache.get? h = some a)
    (hk : a.IsLoop) (hin : (t.cache.enter h).2 = .entered) :
    (t.enter h).1.Tallies g (ts ++ [.entered h]) := by
  have hother : ∀ {y : Tick}, y.subject ≠ .loop h → (ts ++ [Tick.entered h]).count y = ts.count y :=
    fun hy => Tick.count_concat_of_subject (fun hxy => hy hxy.symm) ts
  have hent : ∀ {j n}, (t.enter h).1.cache.Entered j n → _ :=
    fun he => Cache.entered_of_enter hc ha hin he
  constructor
  case hits =>
    intro s'
    rw [hother (by simp), hother (by simp),
      hother (by simp)]
    exact ht.hits s'
  case hits_lt => exact ht.hits_lt
  case entries =>
    intro j n he
    obtain ⟨m, hm, rfl⟩ := hent he
    rw [Tick.count_concat, ht.entries j m hm]
    simp [hk, eq_comm]
  case failures =>
    intro j n he i
    obtain ⟨m, hm, -⟩ := hent he
    rw [hother (by simp), hother (by simp)]
    exact ht.failures j m hm i
  case failures_lt =>
    intro j n he i
    obtain ⟨m, hm, -⟩ := hent he
    exact ht.failures_lt j m hm i

end Tallies

/-! ### The loop head -/

def TalliesBy (g : Settings) (ts : List Tick)
    (tick : EStateM.Result Fault Tracer Mode → Option Tick)
    (r : EStateM.Result Fault Tracer Mode) : Prop :=
  Ends (fun m t => t.Tallies g (ts ++ (tick (.ok m t)).toList))
    (fun err t => t.Tallies g (ts ++ (tick (.error err t)).toList)) r

theorem tallies_countHit (ht : t.Tallies g ts) (hg : t.settings = g)
    (hk : t.shapes.Accepts e k) : TalliesBy g ts (Tick.ofHead (e.site k)) (countHit e k t) := by
  have hsum := ht.hits (e.site k)
  have hlow := ht.hits_lt (e.site k)
  subst hg
  rcases countHit_cases hk with ⟨t', hx, hlt, hc, -⟩ | ⟨t', hx | hx, hle, hc⟩
  · rw [hx]
    refine ht.site hc rfl hlt ?_
    simp only [Tick.count_concat, reduceCtorEq, if_true, if_false, Nat.add_zero]
    omega
  · rw [hx.1]
    refine ht.site hc rfl (by omega) ?_
    simp only [Tick.count_concat, reduceCtorEq, if_true, if_false, Nat.add_zero, Nat.mul_add]
      at hsum ⊢
    omega
  · rw [hx.1]
    refine ht.site hc rfl (by omega) ?_
    simp only [Tick.count_concat, reduceCtorEq, if_true, if_false, Nat.add_zero, Nat.mul_add]
      at hsum ⊢
    omega

theorem tallies_enterOrCount (ht : t.Tallies g ts) (hr : t.Ready g n) (hon : g.enabled = true)
    (hk : t.shapes.Accepts e k) : TalliesBy g ts (Tick.ofHead (e.site k)) (enterOrCount e k t) := by
  rw [enterOrCount_eq, hr.settings, if_pos hon]
  cases hl : t.cache.loop? (e.site k) with
  | none => exact tallies_countHit ht hr.settings hk
  | some j =>
      obtain ⟨a, haj, hkind, -⟩ := (hr.sound.loop_iff _ _).1 hl
      dsimp only
      rcases fit_enter (hr.poised e).toFit haj with ⟨hin, -⟩ | ⟨l, hout, hout'⟩
      · rw [hin]
        exact ht.loop hr.sound haj hkind hin
      · rw [hout]
        obtain ⟨hfit, hshapes, -⟩ := hout' [.loopRefused j l]
        refine tallies_countHit (ht.steady (steady_enter hr.sound hout _)) hfit.settings ?_
        rw [hshapes]
        exact hk

/-- A trace that closes counts nothing, and then the loop is entered or its pass is counted. -/
theorem tallies_close (ht : t.Tallies g ts) (hon : g.enabled = true) (hk : t.shapes.Accepts e k)
    {close : EStateM Fault Tracer Unit} (hs : t.Steadily (close t))
    (hr : Ends (fun _ t' => t'.Ready g n ∧ t'.shapes = t.shapes) (fun _ _ => True) (close t)) :
    TalliesBy g ts (Tick.ofHead (e.site k)) ((close >>= fun _ => enterOrCount e k) t) := by
  refine Ends.bind ((hs.and hr).imp (fun _ t' h' => ?_) fun err t' h' => ?_)
  · obtain ⟨hsteady, hready, hshapes⟩ := h'
    exact tallies_enterOrCount (ht.steady hsteady) hready hon (hshapes ▸ hk)
  · obtain ⟨⟨hsteady, hfault⟩, -⟩ := h'
    simp only [Tick.ofHead, hfault, Bool.false_eq_true, if_false, Option.toList_none,
      List.append_nil]
    exact ht.steady hsteady

theorem tallies_mergePoint (ht : t.Tallies g ts) (hp : t.Poised g n e m) (hon : g.enabled = true)
    (hk : t.shapes.Accepts e k) :
    TalliesBy g ts (Frame.headTick ⟨t, m, e⟩ k) (mergePoint e k m t) := by
  have hgoes : ∀ {r}, Frame.staysOpen ⟨t, m, e⟩ k = false →
      TalliesBy g ts (Tick.ofHead (e.site k)) r → TalliesBy g ts (Frame.headTick ⟨t, m, e⟩ k) r := by
    intro r hs hr
    have htick : Frame.headTick ⟨t, m, e⟩ k = Tick.ofHead (e.site k) := by
      funext r
      rw [Frame.headTick, hs]
      rfl
    rwa [htick]
  refine ends_mergePoint ?_ ?_ ?_ fun hidle => ?_
  · rintro r rfl hrk
    refine hgoes (by simp [Frame.staysOpen, Mode.recording?, hrk]) ?_
    exact tallies_close ht hon hk (steadily_closeLoop hp.sound e r)
      ((ready_closeLoop hp).imp (fun _ _ h' => ⟨h'.1, h'.2.1⟩) fun _ _ _ => trivial)
  · rintro p i r rfl hrk
    refine hgoes (by simp [Frame.staysOpen, Mode.recording?, hrk]) ?_
    exact tallies_close ht hon hk (steadily_closeBridge e p i r t)
      ((ready_closeBridge hp).imp (fun _ _ h' => ⟨h'.1, h'.2.1⟩) fun _ _ _ => trivial)
  · intro r hr hne
    have hs : Frame.staysOpen ⟨t, m, e⟩ k = true := by simp [Frame.staysOpen, hr, hne]
    rw [Frame.headTick, if_pos hs, Option.toList_none, List.append_nil]
    exact ht
  · refine hgoes (by simp [Frame.staysOpen, hidle]) ?_
    exact tallies_enterOrCount ht hp.toReady hon hk

/-! ### Branches -/

/-- A failure is counted, or the count begins anew and a bridge is traced. A loop that is gone counts
nothing. -/
theorem countFailure_cases (t : Tracer) (h : Handle) (i : Nat) :
    t.cache.get? h = none ∧ t.countFailure h i = (t, .interpreting) ∨
      ∃ t', (t.countFailure h i = (t', .interpreting) ∧
            t.failures.findD (h, i) 0 + 1 < t.settings.traceEagerness ∧
            t'.failures = t.failures.insert (h, i) (t.failures.findD (h, i) 0 + 1) ∨
          (∃ r, t.countFailure h i = (t', .tracingBridge h i r)) ∧
            t.settings.traceEagerness ≤ t.failures.findD (h, i) 0 + 1 ∧
            t'.failures = t.failures.insert (h, i) 0) ∧ t'.cache = t.cache ∧ t'.hits = t.hits := by
  unfold countFailure
  cases t.cache.get? h with
  | none => exact Or.inl ⟨rfl, rfl⟩
  | some a =>
      refine Or.inr ?_
      dsimp only
      split_ifs with hlt
      · exact ⟨_, Or.inl ⟨rfl, hlt, rfl⟩, rfl, rfl⟩
      · exact ⟨_, Or.inr ⟨⟨_, rfl⟩, Nat.le_of_not_lt hlt, rfl⟩, rfl, rfl⟩

theorem tallies_countFailure {expected : List Bool} {b : Nat} (ht : t.Tallies g ts)
    (hf : t.Fit g n e (.running h expected b)) (hpos : 0 < g.traceEagerness) (i : Nat) :
    (t.countFailure h i).1.Tallies g (ts ++ (Tick.ofFailure h i (t.countFailure h i).2).toList) := by
  have hinsert : ∀ {c : Nat} {m : FinMap (Handle × Nat) Nat}, m = t.failures.insert (h, i) c →
      ∀ j n, t.cache.Entered j n → ∀ i', m.findD (j, i') 0 =
        if (j, i') = (h, i) then c else t.failures.findD (j, i') 0 := by
    rintro c m rfl j n - i'
    exact FinMap.findD_insert _ _ _ _ _
  rcases countFailure_cases t h i with ⟨hdead, hx⟩ |
    ⟨t', ⟨hx, hlt, hfail⟩ | ⟨⟨r, hx⟩, hle, hfail⟩, hcache, hhits⟩ <;> rw [hx]
  · -- the failure of a loop that is gone
    have hgone : ∀ n, ¬ t.cache.Entered h n := by
      rintro n (⟨a, ha, -⟩ | ⟨hnew, -⟩)
      · rw [hdead] at ha
        cases ha
      · exact absurd hf.fits.1 (Nat.not_lt.2 hnew)
    refine ht.guard rfl hpos (fun he => ?_) rfl rfl fun j n he i' => ?_
    · obtain ⟨n, he⟩ := he
      exact absurd he (hgone n)
    · rw [if_neg]
      intro hji
      obtain ⟨rfl, -⟩ := Prod.mk.inj hji
      exact hgone n he
  · refine ht.guard rfl (hf.settings ▸ hlt) ?_ hcache hhits (hinsert hfail)
    rintro ⟨n, he⟩
    have hsum := ht.failures h n he i
    simp only [Tick.count_concat, reduceCtorEq, if_true, if_false, Nat.add_zero]
    omega
  · refine ht.guard rfl hpos ?_ hcache hhits (hinsert hfail)
    rintro ⟨n, he⟩
    have hsum := ht.failures h n he i
    have hlow := ht.failures_lt h n he i
    rw [hf.settings] at hle
    simp only [Tick.count_concat, reduceCtorEq, if_true, if_false, Nat.add_zero, Nat.mul_add]
    omega

/-- A bridge that takes over counts nothing. -/
theorem tallies_guardFailed {expected : List Bool} {b : Nat} (ht : t.Tallies g ts)
    (hf : t.Fit g n e (.running h expected b)) (hpos : 0 < g.traceEagerness) (i : Nat) :
    (t.guardFailed h i).1.Tallies g (ts ++ (Tick.ofFailure h i (t.guardFailed h i).2).toList) := by
  rw [guardFailed_eq]
  cases hb : t.cache.bridge? h i with
  | none => exact tallies_countFailure ht hf hpos i
  | some b =>
      obtain ⟨a, ha, hab⟩ := Cache.bridge?_eq_some hb
      obtain ⟨-, ba, hba, hbk, -⟩ := hf.sound.bridge h a i b ha hab
      dsimp only
      rcases fit_enter hf hba with ⟨hin, -⟩ | ⟨l, hout, hout'⟩
      · rw [hin]
        refine (List.append_nil ts).symm ▸ ht.steady (Steady.of_cache rfl rfl fun j n he => ?_)
        obtain ⟨m, hm, rfl⟩ := Cache.entered_of_enter hf.sound hba hin he
        rw [if_neg]
        · exact hm
        · rintro ⟨-, hk⟩
          have hk : ba.kind = .loop := hk
          rw [hbk] at hk
          cases hk
      · rw [hout]
        exact tallies_countFailure (ht.steady (steady_enter hf.sound hout [])) (hout' []).1 hpos i

end Tracer

/-! ## Runs and clients -/

namespace Frame

variable {α : Type} {g : Settings} {n : Nat} {past : List Occasion} {o : Occasion} {f : Frame}

def Tallies (g : Settings) (past : List Occasion) (f : Frame) : Prop :=
  (∃ n, f.Poised g n) ∧ f.tracer.Tallies g (ticks past)

theorem Tallies.rest {t : Tracer} (hr : t.Ready g n) (ht : t.Tallies g (ticks past)) :
    Occasion.AtRest (Tallies g) past t :=
  fun e => ⟨⟨n, hr.poised e⟩, ht⟩

theorem Tallies.operation {r : EStateM.Result Fault Frame α} (h : f.Tallies g past)
    (hp : Ends (fun _ f' => ∃ n, f'.Poised g n) (fun _ f' => ∃ n, f'.Poised g n) r)
    (hs : f.Steady r) :
    Ends (fun _ => Tallies g past) (fun _ f' => Occasion.AtRest (Tallies g) past f'.tracer) r :=
  (hp.and hs).imp (fun _ _ h' => ⟨h'.1, h.2.steady h'.2⟩) fun _ _ h' =>
    let ⟨⟨_, hp⟩, hs⟩ := h'
    Tallies.rest hp.toReady (h.2.steady hs)

theorem tallies_branch (h : f.Tallies g past) (hpos : 0 < g.traceEagerness) (cond : Bool) :
    Ends (fun _ => Tallies g (past ++ [.branch f cond]))
      (fun _ f' => Occasion.AtRest (Tallies g) (past ++ [.branch f cond]) f'.tracer)
      (branch cond f) := by
  obtain ⟨⟨n, hp⟩, ht⟩ := id h
  have hpoised := poised_branch hp cond
  cases hf : f.failing? cond with
  | none =>
      have hquiet : ticks (past ++ [.branch f cond]) = ticks past := by
        rw [ticks_concat, Occasion.tick?, hf]
        exact List.append_nil _
      have hsteady : f.Tallies g (past ++ [.branch f cond]) := ⟨⟨n, hp⟩, hquiet.symm ▸ ht⟩
      exact hsteady.operation (hpoised.imp (fun _ _ h => ⟨n, h⟩) fun _ _ h => ⟨n, h⟩)
        (steady_branch hf)
  | some x =>
      obtain ⟨j, i⟩ := x
      obtain ⟨expected, hm, -⟩ := mode_of_failing? hf
      have hfit : f.tracer.Fit g n f.entry (.running j expected i) := hm ▸ hp.toFit
      rw [branch_of_failing? hf] at hpoised ⊢
      refine ⟨⟨n, hpoised⟩, ?_⟩
      rw [ticks_concat, Occasion.tick?, hf]
      exact Tracer.tallies_guardFailed ht hfit hpos i

/-- What is counted stands in the counts, at every occasion of a run. -/
theorem invariant_tallies (hon : g.enabled = true) (hpos : 0 < g.traceEagerness) :
    Occasion.Invariant (Tallies g) where
  checkKey := fun {past f} k h => by
    obtain ⟨⟨n, hp⟩, ht⟩ := h
    exact ((Tracer.poised_checkKey hp f.entry k).and (Tracer.steady_onMonitor _ f.tracer)).imp
      (fun _ _ h => ⟨⟨n, h.1⟩, ht.steady h.2⟩) fun _ _ h => ⟨⟨n, h.1⟩, ht.steady h.2⟩
  mergePoint := fun {past f} k h hk => by
    obtain ⟨⟨n, hp⟩, ht⟩ := h
    have hmerge := (Tracer.poised_mergePoint hp hk).and (Tracer.tallies_mergePoint ht hp hon hk)
    have htick : (Occasion.head f k).tick? =
      f.headTick k (Tracer.mergePoint f.entry k f.mode f.tracer) := rfl
    simp only [Tallies, Occasion.AtRest, ticks_concat, htick]
    cases hx : Tracer.mergePoint f.entry k f.mode f.tracer with
    | ok m t =>
        rw [hx] at hmerge
        exact ⟨⟨n, hmerge.1⟩, hmerge.2⟩
    | error err t =>
        rw [hx] at hmerge
        exact fun e => ⟨⟨n, hmerge.1.poised e⟩, hmerge.2⟩
  leaveLoop := fun {past f} h => by
    obtain ⟨⟨n, hp⟩, ht⟩ := h
    exact ((Tracer.ready_leaveLoop hp.toFit).and (Tracer.steadily_leaveLoop _ _ _)).imp
      (fun _ _ h => Tallies.rest h.1 (ht.steady h.2)) fun _ _ h => Tallies.rest h.1 (ht.steady h.2.1)
  getField := fun {past f} l h => by
    obtain ⟨⟨n, hp⟩, -⟩ := id h
    exact h.operation ((poised_getField hp l).imp (fun _ _ h => ⟨n, h⟩) fun _ _ h => ⟨n, h⟩)
      (steady_getField l f)
  setField := fun {past f} l value h => by
    obtain ⟨⟨n, hp⟩, -⟩ := id h
    exact h.operation
      ((wrote_setField hp l value).imp (fun _ _ h => ⟨_, h.poised⟩) fun _ _ h => ⟨_, h.poised⟩)
      (steady_setField hp l value)
  branch := fun cond h => tallies_branch h hpos cond
  breakOff := fun {past f} err h => by
    obtain ⟨⟨n, hp⟩, ht⟩ := h
    refine Tallies.rest hp.toReady ?_
    rw [ticks_concat]
    exact (List.append_nil (ticks past)).symm ▸ ht

end Frame

theorem Occasion.stop?_of_refused {o : Occasion} {s : Site} (ho : o.tick? = some (.refused s)) :
    ∃ err t, o.stop? = some (err, t) ∧ err.ofBegin = true := by
  cases o with
  | head f k =>
      have htick : f.headTick k (Tracer.mergePoint f.entry k f.mode f.tracer) =
        some (.refused s) := ho
      unfold stop?
      dsimp only
      cases hx : Tracer.mergePoint f.entry k f.mode f.tracer with
      | ok m t =>
          rw [hx, Frame.headTick] at htick
          split_ifs at htick
          cases m <;> cases htick
      | error err t =>
          rw [hx, Frame.headTick] at htick
          split_ifs at htick
          refine ⟨err, t, rfl, ?_⟩
          rw [← Bool.not_eq_false]
          intro hf
          rw [Tick.ofHead, hf] at htick
          cases htick
  | branch f cond =>
      obtain ⟨x, -, hx⟩ := Option.bind_eq_some_iff.1 ho
      cases hm : (f.tracer.guardFailed x.1 x.2).2 <;> rw [hm] at hx <;> cases hx
  | breakOff f err => cases ho

/-- In all runs of all programs on a tracer that is not switched off, and whatever their client does
in between, the counts are what was counted: at every loop head and branch, and between the calls.
The passes of a site that are counted are the threshold for each trace begun, and those counted
since; the failures of a guard of a live loop that no bridge takes over are the eagerness for each
bridge trace begun, and those counted since; a live loop has been entered as often as it says. The
counts stay below threshold and eagerness, so to count one more never goes beyond these. An attempt
is refused only behind a body that faults or a malformed key. -/
theorem counts_kept (settings : Settings) (hvalid : settings.validate = .ok ())
    (hon : settings.enabled = true) (cs : List Call) :
    let new : Tracer := { settings := settings }
    (∀ past o rest, occasions cs new = past ++ o :: rest →
      o.frame.tracer.Tallies settings (ticks past)) ∧
    (∀ done, done <+: cs → Tracer.Tallies settings (ticks (occasions done new))
      (done.foldl (fun t c => c.perform t) new)) ∧
    (behave cs new = true → ∀ s, (ticks (occasions cs new)).count (.refused s) = 0) := by
  intro new
  obtain ⟨hthreshold, heagerness, -⟩ := Settings.validate_eq_ok_iff.1 hvalid
  have hnew : Occasion.AtRest (Frame.Tallies settings) [] new :=
    Frame.Tallies.rest (Tracer.Ready.new settings) (Tracer.Tallies.new hthreshold heagerness)
  have hcalls : ∀ c ∈ cs, c.Outside → ∀ {past t},
      Occasion.AtRest (Frame.Tallies settings) past t →
        Occasion.AtRest (Frame.Tallies settings) past (c.perform t) := by
    intro c _ hc past t h
    obtain ⟨⟨n, hp⟩, ht⟩ := h ⟨0, "", [], []⟩
    exact Frame.Tallies.rest (c.ready_perform hc hp.toReady)
      (ht.steady (c.steady_perform hc hp.toReady))
  obtain ⟨hall, hrest⟩ :=
    (Frame.invariant_tallies hon (Nat.pos_of_ne_zero heagerness)).calls hcalls hnew
  refine ⟨fun past o rest he => ?_, fun done hdone => ?_, fun hb s => ?_⟩
  · exact (hall.split he).1.2
  · exact (hrest done hdone ⟨0, "", [], []⟩).2
  · rw [List.count_eq_zero]
    intro hmem
    obtain ⟨o, ho, htick⟩ := List.mem_filterMap.1 hmem
    obtain ⟨err, t, hs, hbegin⟩ := o.stop?_of_refused htick
    rcases (calls_reach cs (Tracer.idle_new settings) hb).2.1 err (mem_faults_of_stop? ho hs) with
      ⟨hook, rfl⟩ | rfl <;> cases hbegin

def flips : List Call :=
  List.replicate 2 (.run (Program.flipping (Program.flippingEntry 0) 9 4) 0)

/-- The loop is entered ten times, and its branch fails in four passes, of which every other one
begins the trace of a bridge. -/
theorem counts_kept_flips :
    let new : Tracer := { settings := { threshold := 2, traceEagerness := 2 } }
    let ts := ticks (occasions flips new)
    ts.count (.entered ⟨1⟩) = 10 ∧ ts.count (.failed ⟨1⟩ 0) + ts.count (.extended ⟨1⟩ 0) = 4 ∧
      ts.count (.refused ⟨0, ⟨[.int 9]⟩⟩) = 0 := by
  intro new ts
  obtain ⟨-, hrest, hrefused⟩ :=
    counts_kept { threshold := 2, traceEagerness := 2 } rfl rfl flips
  have hkept := hrest flips (List.prefix_refl _)
  have hany : (((flips.foldl (fun t c => c.perform t) new).cache.get? ⟨1⟩).any fun a =>
      decide (a.IsLoop ∧ a.entries = 10)) = true := by decide +kernel
  obtain ⟨a, ha, hloop⟩ := (Option.any_eq_true _ _).1 hany
  have hentered : (flips.foldl (fun t c => c.perform t) new).cache.Entered ⟨1⟩ 10 :=
    Or.inl ⟨a, ha, of_decide_eq_true hloop⟩
  refine ⟨hkept.entries ⟨1⟩ 10 hentered, ?_, hrefused (by decide +kernel) _⟩
  rw [hkept.failures ⟨1⟩ 10 hentered 0]
  decide +kernel

end HotLoop
