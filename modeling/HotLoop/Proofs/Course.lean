import HotLoop.Proofs.Unhindered

/-!
# The course of a loop with one branch

A loop that meets one branch in each pass, under one key and with observers that never fail, is
taken by the tracer through five stages: its passes are counted, one pass is traced, the trace runs
as a loop whose guard may fail, a failing pass is traced as a bridge, and the bridge runs. `Stage`
is this machine, `Stage.At` says what a tracer looks like in a stage, and each pass moves the tracer
to the next stage.
-/

namespace HotLoop

open Code Journal Lifecycle Trace

/-- Where the tracer stands between two passes. -/
inductive Stage where
  | counting (hits : Nat)
  /-- The last pass was traced, and its branch went in this direction. -/
  | traced (dir : Bool)
  | looping (dir : Bool) (entries failures : Nat)
  /-- In the last pass the trace of a bridge began. -/
  | bridging (dir : Bool) (entries : Nat)
  | bridged (dir : Bool) (entries bridgeEntries : Nat)
  deriving DecidableEq

namespace Stage

def closed : Stage → Stage
  | .traced dir => .looping dir 0 0
  | .bridging dir n => .bridged dir n 0
  | st => st

def expects? : Stage → Option Bool
  | .looping dir _ _ => some dir
  | .bridged dir _ _ => some dir
  | _ => none

def entered : Stage → Stage
  | .looping dir n f => .looping dir (n + 1) f
  | .bridged dir n m => .bridged dir (n + 1) m
  | st => st

def branched (eagerness : Nat) (b : Bool) : Stage → Stage
  | .looping dir n f =>
    if dir = b then .looping dir n f
    else if f + 1 < eagerness then .looping dir n (f + 1)
    else .bridging dir n
  | .bridged dir n m => if dir = b then .bridged dir n m else .bridged dir n (m + 1)
  | st => st

/-- One pass whose branch goes in the direction `b`. -/
def next (threshold eagerness : Nat) (st : Stage) (b : Bool) : Stage :=
  match st.closed with
  | .counting n => if n + 1 < threshold then .counting (n + 1) else .traced b
  | st => st.entered.branched eagerness b

theorem closed_cases (st : Stage) :
    (∃ n, st.closed = .counting n) ∨ ∃ dir, st.closed.expects? = some dir := by
  cases st with
  | counting n => exact Or.inl ⟨n, rfl⟩
  | _ => exact Or.inr ⟨_, rfl⟩

theorem expects?_entered (st : Stage) : st.entered.expects? = st.expects? := by
  cases st <;> rfl

theorem next_of_counting {threshold eagerness n : Nat} {st : Stage} (hn : st.closed = .counting n)
    (b : Bool) : st.next threshold eagerness b = (counting n).next threshold eagerness b := by
  cases st with
  | counting n' => rw [show counting n' = counting n from hn]
  | _ => cases hn

theorem next_of_expects {threshold eagerness : Nat} {st : Stage} {b dir : Bool}
    (hd : st.closed.expects? = some dir) :
    st.next threshold eagerness b = st.closed.entered.branched eagerness b := by
  cases st with
  | counting n => cases hd
  | _ => rfl

/-! ## Tracers in a stage -/

def loopOps (dir : Bool) : List Op := [.label, .guardBranch 0 dir, .jump]

section

variable (e : EntryPoint) (k : Key)

def compiled (dir : Bool) : Notice := .compile e k ⟨1⟩ (loopOps dir) .loop 0 0

def attached : Notice := .bridge e ⟨1⟩ ⟨2⟩ 0 [.jump] 0 0

def notices : Stage → List Notice
  | .counting _ => []
  | .traced _ => []
  | .looping dir _ _ => [compiled e k dir]
  | .bridging dir _ => [compiled e k dir]
  | .bridged dir _ _ => [compiled e k dir, attached e]

def parting : Stage → List Notice
  | .traced _ => [.abort .badLoop e k]
  | .bridging _ _ => [.abort .bridge e k]
  | _ => []

def loopArtifact (dir : Bool) (n : Nat) : Artifact :=
  { Cache.newLoop ⟨1⟩ (e.site k) ∅ (loopOps dir) with entries := n }

def bridgeArtifact (m : Nat) : Artifact :=
  { Cache.newBridge ⟨2⟩ ⟨1⟩ (e.site k) 0 ∅ [.jump] with entries := m }

def loopCache (dir : Bool) (n : Nat) : Cache where
  next := 2
  loops := (∅ : FinMap Site Handle).insert (e.site k) ⟨1⟩
  artifacts := (∅ : FinMap Handle Artifact).insert ⟨1⟩ (loopArtifact e k dir n)

def bridgeCache (dir : Bool) (n m : Nat) : Cache where
  next := 3
  loops := (∅ : FinMap Site Handle).insert (e.site k) ⟨1⟩
  artifacts :=
    ((∅ : FinMap Handle Artifact).insert ⟨1⟩ ((loopArtifact e k dir n).attach 0 ⟨2⟩)).insert ⟨2⟩
      (bridgeArtifact e k m)

def cache : Stage → Cache
  | .looping dir n _ => loopCache e k dir n
  | .bridging dir n => loopCache e k dir n
  | .bridged dir n m => bridgeCache e k dir n m
  | _ => {}

def phase : Stage → Phase
  | .counting _ => .untouched
  | .traced _ => .compiling
  | .looping _ _ _ => .compiled ⟨1⟩
  | .bridging _ _ => .compiled ⟨1⟩
  | .bridged _ _ _ => .bridged ⟨1⟩ 1

def announced : Stage → Option Site
  | .counting _ => none
  | .traced _ => none
  | _ => some (e.site k)

def hits : Stage → Nat
  | .counting n => n
  | _ => 0

def failures : Stage → Nat
  | .looping _ _ f => f
  | _ => 0

def Fits : Stage → Mode → Prop
  | .traced dir, m =>
    m = .tracingLoop { key := k, ops := [.label, .guardBranch 0 dir], branches := 1 }
  | .bridging _ _, m => m = .tracingBridge ⟨1⟩ 0 { key := k, ops := [] }
  | _, m => m.recording? = none

/-- The tracer is in this stage with the site of `e` and `k`, and it has no other sites. -/
structure At (g : Settings) (st : Stage) (t : Tracer) : Prop where
  settings : t.settings = g
  shapes : t.shapes.Allows e k.kinds
  cache : t.cache = st.cache e k
  hits : t.hits.findD (e.site k) 0 = st.hits
  failures : t.failures.findD (⟨1⟩, 0) 0 = st.failures
  phase : t.monitor.ledger.phase (e.site k) = st.phase
  announced : t.monitor.ledger.loops.find? ⟨1⟩ = st.announced e k
  quiet : t.monitor.Quiet
  notices : t.monitor.notices = [st.notices e k]

end

/-! ### The code cache of a stage -/

section

variable {e : EntryPoint} {k : Key} {dir : Bool} {n m : Nat}

theorem addLoop_empty :
    ({} : Cache).addLoop (e.site k) ∅ (loopOps dir) = (loopCache e k dir 0, .ok ⟨⟨1⟩, []⟩) := rfl

theorem addBridge_loopCache : (loopCache e k dir n).addBridge ⟨1⟩ (e.site k) 0 ∅ [.jump] =
    (bridgeCache e k dir n 0, .ok ⟨2⟩) := rfl

theorem enter_loopCache :
    (loopCache e k dir n).enter ⟨1⟩ = (loopCache e k dir (n + 1), .entered) := rfl

theorem enter_bridgeCache :
    (bridgeCache e k dir n m).enter ⟨1⟩ = (bridgeCache e k dir (n + 1) m, .entered) := rfl

theorem enter_bridge :
    (bridgeCache e k dir n m).enter ⟨2⟩ = (bridgeCache e k dir n (m + 1), .entered) := rfl

theorem bridge?_loopCache : (loopCache e k dir n).bridge? ⟨1⟩ 0 = none := rfl

theorem bridge?_bridgeCache : (bridgeCache e k dir n m).bridge? ⟨1⟩ 0 = some ⟨2⟩ := rfl

theorem loop?_cache {st : Stage} (hd : st.expects? = some dir) :
    (st.cache e k).loop? (e.site k) = some ⟨1⟩ := by
  cases st with
  | looping d n f => exact FinMap.find?_insert_self _ _ _
  | bridged d n m => exact FinMap.find?_insert_self _ _ _
  | _ => cases hd

end

/-! ## One pass -/

namespace At

variable {e : EntryPoint} {k : Key} {g : Settings} {st : Stage} {t : Tracer} {m : Mode}
  {dir : Bool}

theorem notices_told (h : st.At e k g t) (n? : Option Notice) (l : Ledger) :
    (t.monitor.told n? l).notices = [st.notices e k ++ n?.toList] := by
  rw [Monitor.notices_told, h.notices]
  rfl

theorem closeLoop (h : (traced dir).At e k g t) (hk : t.shapes.Accepts e k) :
    ∃ t', Tracer.closeLoop e ⟨k, [.label, .guardBranch 0 dir], ∅, 1⟩ t = .ok () t' ∧
      (looping dir 0 0).At e k g t' ∧ t'.shapes = t.shapes := by
  have hcache : t.cache = {} := h.cache
  have hl := Ledger.announceLoop_eq_ok_iff.2 ⟨h.phase, h.announced, rfl⟩
  obtain ⟨js, hclose⟩ := Tracer.closeLoop_installs
    (r := ⟨k, [.label, .guardBranch 0 dir], ∅, 1⟩) hk (hcache ▸ addLoop_empty) hl h.quiet
  refine ⟨_, hclose, ?_, rfl⟩
  constructor
  case settings => exact h.settings
  case shapes => exact h.shapes
  case cache => rfl
  case hits => exact h.hits
  case failures => exact h.failures
  case phase => exact (Ledger.phase_insert _ _ _ _).trans (if_pos rfl)
  case announced => exact FinMap.find?_insert_self _ _ _
  case quiet => exact h.quiet.told _ _
  case notices => exact h.notices_told _ _

theorem closeBridge {n : Nat} (h : (bridging dir n).At e k g t) :
    ∃ t', Tracer.closeBridge e ⟨1⟩ 0 ⟨k, [], ∅, 0⟩ t = .ok () t' ∧
      (bridged dir n 0).At e k g t' ∧ t'.shapes = t.shapes := by
  have hcache : t.cache = loopCache e k dir n := h.cache
  have hphase : Ledger.bridgedPhase ⟨2⟩ ⟨1⟩ (t.monitor.ledger.phase (e.site k)) =
      .ok (.bridged ⟨1⟩ 1) := by
    rw [h.phase]
    rfl
  have hl := Ledger.announceBridge_eq_ok_iff.2 ⟨_, _, h.announced, rfl, hphase, rfl⟩
  have hget : t.cache.get? ⟨1⟩ = some (loopArtifact e k dir n) := hcache ▸ rfl
  obtain ⟨js, hclose⟩ := Tracer.closeBridge_installs (i := 0) (r := ⟨k, [], ∅, 0⟩) hget rfl
    (hcache ▸ addBridge_loopCache) hl h.quiet
  refine ⟨_, hclose, ?_, rfl⟩
  constructor
  case settings => exact h.settings
  case shapes => exact h.shapes
  case cache => rfl
  case hits => exact h.hits
  case failures => exact h.failures
  case phase => exact (Ledger.phase_insert _ _ _ _).trans (if_pos rfl)
  case announced => exact h.announced
  case quiet => exact h.quiet.told _ _
  case notices => exact h.notices_told _ _

theorem close (h : st.At e k g t) (hm : st.Fits k m) (hk : t.shapes.Accepts e k) :
    ∃ t', Tracer.mergePoint e k m t = Tracer.enterOrCount e k t' ∧ st.closed.At e k g t' ∧
      t'.shapes = t.shapes := by
  cases st with
  | traced dir =>
      have hm : m = .tracingLoop ⟨k, [.label, .guardBranch 0 dir], ∅, 1⟩ := hm
      obtain ⟨t', hclose, ht'⟩ := h.closeLoop hk
      rw [hm]
      exact ⟨t', Tracer.mergePoint_of_closeLoop hclose, ht'⟩
  | bridging dir n =>
      have hm : m = .tracingBridge ⟨1⟩ 0 ⟨k, [], ∅, 0⟩ := hm
      obtain ⟨t', hclose, ht'⟩ := h.closeBridge
      rw [hm]
      exact ⟨t', Tracer.mergePoint_of_closeBridge hclose, ht'⟩
  | _ => exact ⟨t, Tracer.mergePoint_of_idle hm, h, rfl⟩

/-- Compiled code is entered, and its guard expects the direction that was traced. -/
theorem enter (h : st.At e k g t) (hon : g.enabled = true) (hd : st.expects? = some dir) :
    ∃ t', Tracer.enterOrCount e k t = .ok (.running ⟨1⟩ [dir] 0) t' ∧ st.entered.At e k g t' ∧
      t'.shapes = t.shapes := by
  have hon' : t.settings.enabled = true := h.settings ▸ hon
  have hs : t.cache.loop? (e.site k) = some ⟨1⟩ := by rw [h.cache, loop?_cache hd]
  cases st with
  | looping d n f =>
      obtain rfl := Option.some.inj hd
      have hcache : t.cache = loopCache e k d n := h.cache
      have hget : t.cache.get? ⟨1⟩ = some (loopArtifact e k d n) := hcache ▸ rfl
      obtain ⟨js, he⟩ := Tracer.enterOrCount_of_current hon' hs hget rfl
      refine ⟨_, he, ⟨h.settings, h.shapes, ?_, h.hits, h.failures, h.phase, h.announced, h.quiet,
        h.notices⟩, rfl⟩
      change (t.cache.enter ⟨1⟩).1 = _
      rw [hcache, enter_loopCache]
      rfl
  | bridged d n m =>
      obtain rfl := Option.some.inj hd
      have hcache : t.cache = bridgeCache e k d n m := h.cache
      have hget : t.cache.get? ⟨1⟩ = some ((loopArtifact e k d n).attach 0 ⟨2⟩) := hcache ▸ rfl
      obtain ⟨js, he⟩ := Tracer.enterOrCount_of_current hon' hs hget rfl
      refine ⟨_, he, ⟨h.settings, h.shapes, ?_, h.hits, h.failures, h.phase, h.announced, h.quiet,
        h.notices⟩, rfl⟩
      change (t.cache.enter ⟨1⟩).1 = _
      rw [hcache, enter_bridgeCache]
      rfl
  | _ => cases hd

/-- The branch in the compiled loop goes on, fails and is counted, starts the trace of a bridge, or
goes on in the bridge. -/
theorem branch (h : st.At e k g t) (hd : st.expects? = some dir) (b : Bool) :
    ∃ f, Frame.branch b ⟨t, .running ⟨1⟩ [dir] 0, e⟩ = .ok () f ∧
      (st.branched g.traceEagerness b).At e k g f.tracer ∧
      (st.branched g.traceEagerness b).Fits k f.mode ∧ f.tracer.shapes = t.shapes := by
  rw [Frame.branch_eq]
  dsimp only [List.getElem?_cons_zero]
  cases st with
  | looping d n f =>
      obtain rfl := Option.some.inj hd
      have hcache : t.cache = loopCache e k d n := h.cache
      have hfailures : t.failures.findD (⟨1⟩, 0) 0 = f := h.failures
      have hget : t.cache.get? ⟨1⟩ = some (loopArtifact e k d n) := hcache ▸ rfl
      have hbridge : t.cache.bridge? ⟨1⟩ 0 = none := hcache ▸ bridge?_loopCache
      dsimp only [branched]
      split_ifs with hb hf
      · exact ⟨_, rfl, h, rfl, rfl⟩
      · obtain ⟨js, hfail⟩ := Tracer.guardFailed_below hbridge hget
          (by rw [hfailures, h.settings]; exact hf)
        rw [hfail, hfailures]
        refine ⟨_, rfl, ⟨h.settings, h.shapes, h.cache, h.hits, ?_, h.phase, h.announced, h.quiet,
          h.notices⟩, rfl, rfl⟩
        exact FinMap.findD_insert_self _ _ _ _
      · obtain ⟨js, hfail⟩ := Tracer.guardFailed_reached hbridge hget
          (by rw [hfailures, h.settings]; exact Nat.not_lt.1 hf)
        rw [hfail]
        refine ⟨_, rfl, ⟨h.settings, h.shapes, h.cache, h.hits, ?_, h.phase, h.announced, h.quiet,
          h.notices⟩, rfl, rfl⟩
        exact FinMap.findD_insert_self _ _ _ _
  | bridged d n m =>
      obtain rfl := Option.some.inj hd
      have hcache : t.cache = bridgeCache e k d n m := h.cache
      have hget : t.cache.get? ⟨2⟩ = some (bridgeArtifact e k m) := hcache ▸ rfl
      have hbridge : t.cache.bridge? ⟨1⟩ 0 = some ⟨2⟩ := hcache ▸ bridge?_bridgeCache
      dsimp only [branched]
      split_ifs with hb
      · exact ⟨_, rfl, h, rfl, rfl⟩
      · obtain ⟨js, hfail⟩ := Tracer.guardFailed_bridged hbridge hget rfl
        rw [hfail]
        refine ⟨_, rfl, ⟨h.settings, h.shapes, ?_, h.hits, h.failures, h.phase, h.announced,
          h.quiet, h.notices⟩, rfl, rfl⟩
        change (t.cache.enter ⟨2⟩).1 = _
        rw [hcache, enter_bridge]
        rfl
  | _ => cases hd

theorem count {n : Nat} (h : (counting n).At e k g t) (hon : g.enabled = true)
    (hlimit : 2 ≤ g.traceLimit) (hk : t.shapes.Accepts e k) (b : Bool) :
    ∃ m₁ t₁ f, Tracer.enterOrCount e k t = .ok m₁ t₁ ∧ Frame.branch b ⟨t₁, m₁, e⟩ = .ok () f ∧
      ((counting n).next g.threshold g.traceEagerness b).At e k g f.tracer ∧
      ((counting n).next g.threshold g.traceEagerness b).Fits k f.mode ∧
      f.tracer.shapes = t.shapes := by
  have hhits : t.hits.findD (e.site k) 0 = n := h.hits
  have hnone : t.cache.loop? (e.site k) = none := h.cache ▸ rfl
  have hhead := Tracer.enterOrCount_of_none (k := k) (h.settings ▸ hon) hnone
  dsimp only [next, closed]
  split_ifs with hlt
  · have hcount := Tracer.countHit_below (t := t) (e := e) (k := k)
      (by rw [hhits, h.settings]; exact hlt)
    refine ⟨_, _, _, hhead.trans hcount, rfl, ?_, rfl, rfl⟩
    refine ⟨h.settings, h.shapes, h.cache, ?_, h.failures, h.phase, h.announced, h.quiet, h.notices⟩
    rw [hhits]
    exact FinMap.findD_insert_self _ _ _ _
  · have hidle : t.monitor.ledger.phase (e.site k) ≠ .compiling := by
      rw [h.phase]
      nofun
    obtain ⟨js, hcount⟩ := Tracer.countHit_reached (t := t) (e := e) (k := k)
      (by rw [hhits, h.settings]; exact Nat.not_lt.1 hlt) hk hidle h.quiet
    have hroom : [Op.label].length < t.settings.traceLimit := by
      rw [h.settings]
      exact hlimit
    refine ⟨_, _, _, hhead.trans hcount, Frame.branch_of_tracingLoop hroom b, ?_, rfl, rfl⟩
    constructor
    case settings => exact h.settings
    case shapes => exact h.shapes
    case cache => exact h.cache
    case hits => exact FinMap.findD_insert_self _ _ _ _
    case failures => exact h.failures
    case phase => exact (Ledger.phase_insert _ _ _ _).trans (if_pos rfl)
    case announced => exact h.announced
    case quiet => exact h.quiet.told _ _
    case notices => exact h.notices_told _ _

/-- A pass that begins in a stage ends in the next one. -/
theorem turn (h : st.At e k g t) (hm : st.Fits k m) (hon : g.enabled = true)
    (hlimit : 2 ≤ g.traceLimit) (hk : t.shapes.Accepts e k) (b : Bool) :
    ∃ m₁ t₁ f, Tracer.mergePoint e k m t = .ok m₁ t₁ ∧ Frame.branch b ⟨t₁, m₁, e⟩ = .ok () f ∧
      (st.next g.threshold g.traceEagerness b).At e k g f.tracer ∧
      (st.next g.threshold g.traceEagerness b).Fits k f.mode ∧ f.tracer.shapes = t.shapes := by
  obtain ⟨t', hmerge, ht', hshapes⟩ := h.close hm hk
  rw [hmerge, ← hshapes]
  rcases st.closed_cases with ⟨n, hn⟩ | ⟨dir, hd⟩
  · rw [hn] at ht'
    rw [next_of_counting hn]
    exact ht'.count hon hlimit (hshapes ▸ hk) b
  · obtain ⟨t₁, henter, ht₁, hshapes₁⟩ := ht'.enter hon hd
    obtain ⟨f, hbranch, hf, hfits, hshapes₂⟩ :=
      ht₁.branch ((expects?_entered _).trans hd) b
    rw [next_of_expects hd]
    exact ⟨_, t₁, f, henter, hbranch, hf, hfits, hshapes₂.trans hshapes₁⟩

theorem leave (h : st.At e k g t) (hm : st.Fits k m)
    (hk : st.parting e k ≠ [] → t.shapes.Accepts e k) :
    ∃ t', Tracer.leaveLoop e m t = .ok () t' ∧ t'.cache = st.cache e k ∧
      t'.monitor.notices = [st.notices e k ++ st.parting e k] := by
  cases st with
  | traced dir =>
      have hl : t.monitor.ledger.abort .badLoop e k = .ok _ :=
        Ledger.abort_eq_ok_iff.2 (Or.inl ⟨h.phase, rfl⟩)
      obtain ⟨js, hleave⟩ := Tracer.leaveLoop_aborts (Or.inl ⟨hm, rfl⟩)
        (hk (List.cons_ne_nil _ _)) hl h.quiet
      exact ⟨_, hleave, h.cache, h.notices_told _ _⟩
  | bridging dir n =>
      have hsettled : Ledger.Settled (t.monitor.ledger.phase (e.site k)) := by
        rw [h.phase]
        exact ⟨nofun, nofun, nofun⟩
      have hl := Ledger.abort_settled .bridge hsettled
      obtain ⟨js, hleave⟩ := Tracer.leaveLoop_aborts (Or.inr ⟨⟨_, _, hm⟩, rfl⟩)
        (hk (List.cons_ne_nil _ _)) hl h.quiet
      exact ⟨_, hleave, h.cache, h.notices_told _ _⟩
  | _ =>
      refine ⟨t, Tracer.leaveLoop_of_idle hm, h.cache, h.notices.trans ?_⟩
      exact congrArg _ (List.append_nil _).symm

end At

/-! ## Passes whose branch flips once -/

/-- The stage behind `j` passes whose branch was not taken and then `q` passes whose branch was. -/
def course (threshold eagerness j q : Nat) : Stage :=
  if j + q < threshold then .counting (j + q)
  else if j + q = threshold then .traced (decide (j < threshold))
  else if j < threshold then .looping true (j + q - threshold) 0
  else if q < eagerness then .looping false (j + q - threshold) q
  else if q = eagerness then .bridging false (j + q - threshold)
  else .bridged false (j + q - threshold) (q - eagerness)

section

variable {threshold eagerness : Nat} {j q : Nat}

theorem course_counting (h : j + q < threshold) :
    course threshold eagerness j q = .counting (j + q) := if_pos h

theorem course_traced (h : j + q = threshold) :
    course threshold eagerness j q = .traced (decide (j < threshold)) := by
  unfold course
  rw [if_neg (by omega), if_pos h]

/-- The guard of the loop never fails, or too few times. -/
theorem course_looping (h : threshold < j + q) (hq : j < threshold ∨ q < eagerness) :
    ∃ n, course threshold eagerness j q =
      .looping (decide (j < threshold)) (j + q - threshold) n := by
  unfold course
  rw [if_neg (by omega), if_neg (by omega)]
  by_cases hj : j < threshold
  · rw [if_pos hj, decide_eq_true hj]
    exact ⟨0, rfl⟩
  · rw [if_neg hj, if_pos (hq.resolve_left hj), decide_eq_false hj]
    exact ⟨q, rfl⟩

theorem course_bridging (h : threshold < j + q) (hj : threshold ≤ j) (hq : q = eagerness) :
    course threshold eagerness j q = .bridging false (j + q - threshold) := by
  unfold course
  rw [if_neg (by omega), if_neg (by omega), if_neg (by omega), if_neg (by omega), if_pos hq]

theorem course_bridged (h : threshold < j + q) (hj : threshold ≤ j) (hq : eagerness < q) :
    course threshold eagerness j q = .bridged false (j + q - threshold) (q - eagerness) := by
  unfold course
  rw [if_neg (by omega), if_neg (by omega), if_neg (by omega), if_neg (by omega),
    if_neg (by omega)]

theorem entries_course (h : threshold < j + q) (e : EntryPoint) (k : Key) :
    (((course threshold eagerness j q).cache e k).get? ⟨1⟩).map Artifact.entries =
      some (j + q - threshold) := by
  by_cases hlooping : j < threshold ∨ q < eagerness
  · obtain ⟨n, hst⟩ := course_looping h hlooping
    rw [hst]
    rfl
  · obtain ⟨hj, hq⟩ := not_or.1 hlooping
    rcases Nat.eq_or_lt_of_le (Nat.not_lt.1 hq) with heq | hlt
    · rw [course_bridging h (Nat.not_lt.1 hj) heq.symm]
      rfl
    · rw [course_bridged h (Nat.not_lt.1 hj) hlt]
      rfl

theorem next_course_false (he : 1 ≤ eagerness) (j : Nat) :
    (course threshold eagerness j 0).next threshold eagerness false =
      course threshold eagerness (j + 1) 0 := by
  unfold course
  split_ifs <;> simp only [next, closed, entered, branched] <;> grind

theorem next_course_true (he : 1 ≤ eagerness) (j q : Nat) :
    (course threshold eagerness j q).next threshold eagerness true =
      course threshold eagerness j (q + 1) := by
  -- The traced branch goes where the flip has led the pass that reaches the threshold.
  have hdir : j + q < threshold → decide (j < threshold) = true :=
    fun hlt => decide_eq_true (by omega)
  unfold course
  split_ifs <;> simp only [next, closed, entered, branched] <;> grind

example : [false, false, false, true, true, true].foldl (next 3 2) (counting 0) =
    bridged false 3 1 := by decide

end

end Stage

end HotLoop
