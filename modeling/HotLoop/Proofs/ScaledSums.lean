import HotLoop.Proofs.GreenSums
import HotLoop.Proofs.OneField
import Mathlib.Algebra.BigOperators.Group.Finset.Basic
import Mathlib.Algebra.BigOperators.Intervals

/-!
# The weighted sum whose weight changes once

The loop is compiled on its first weight. The pass that changes the weight leaves the compiled code
at its branch, and the write of that pass retires the code, also while the trace of a bridge of it
is open. The passes behind it are counted from the start, and the loop is compiled again.
-/

namespace HotLoop

open Code Journal Lifecycle Trace

/-- The trace of a bridge is given up if its loop is gone. -/
theorem Tracer.closeBridge_of_dead {t : Tracer} {e : EntryPoint} {parent : Handle} {i : Nat}
    {r : Recording} {ledger : Ledger} (hd : t.cache.get? parent = none)
    (hk : t.shapes.Accepts e r.key) (hl : t.monitor.ledger.abort .bridge e r.key = .ok ledger)
    (hq : t.monitor.Quiet) :
    ∃ js, closeBridge e parent i r t = .ok () { t with
      journal := js
      monitor := t.monitor.told (some (.abort .bridge e r.key)) ledger } := by
  have hdead : ¬ t.cache.isLive parent = true := by
    rw [Cache.isLive_iff]
    rintro ⟨a, ha⟩
    exact nomatch hd.symm.trans ha
  rw [closeBridge_eq, if_neg hdead]
  exact report_heard (r := .abort .bridge e r.key) hk hl hq

/-! ## Code on one field -/

def foldedOps (l : Location) : List Op :=
  [.label, .foldedField l, .guardVersion l, .guardBranch 0 false, .jump]

def foldedLoop (e : EntryPoint) (k : Key) (l : Location) (h : Handle) : Notice :=
  .compile e k h (foldedOps l) .loop 0 0

namespace Straight

section

variable (s : Site) (k : Key) (l : Location) (r : Nat)

def foldedArtifact (h : Handle) (n : Nat) : Artifact :=
  { Cache.newLoop h s (.lone ⟨0, l, r + 1⟩) (foldedOps l) with entries := n }

/-- The cache of a site whose code depends on the field, behind `r` writes that each retired a
loop. -/
def foldedCache : Straight → Cache
  | .counting _ => { versions := .revoked l r, next := r + 1, retiredCount := r }
  | .traced => { versions := .lone l r [], next := r + 1, retiredCount := r }
  | .looping h n =>
    { versions := .lone l r [h]
      next := r + 2
      loops := (∅ : FinMap Site Handle).insert s h
      artifacts := (∅ : FinMap Handle Artifact).insert h (foldedArtifact s l r h n)
      retiredCount := r }

def foldedPhase : Straight → Phase
  | .counting _ => if r = 0 then .untouched else .retired ⟨r⟩
  | .traced => .compiling
  | .looping h _ => .compiled h

def foldedRecording : Recording where
  key := k
  ops := [.label, .foldedField l, .guardVersion l, .guardBranch 0 false]
  guards := .lone ⟨0, l, r + 1⟩
  branches := 1

def FitsFolded : Straight → Mode → Prop
  | .traced, m => m = .tracingLoop (foldedRecording k l r)
  | _, m => m.recording? = none

def announced : Straight → FinMap Handle Site
  | .looping h _ => (∅ : FinMap Handle Site).insert h s
  | _ => ∅

end

/-- The tracer at a stage of the loop under `k`, behind `r` writes of the field that each retired a
loop. The field has the value `x`, and observers have heard `ns`. -/
structure Folds (g : Settings) (e : EntryPoint) (k : Key) (l : Location) (r : Nat) (x : Int)
    (ns : List Notice) (st : Straight) (t : Tracer) : Prop where
  settings : t.settings = g
  shapes : t.shapes.Allows e k.kinds
  has : t.heap.Has l x
  cache : t.cache = st.foldedCache (e.site k) l r
  hits : t.hits.findD (e.site k) 0 = st.hits
  failures : t.failures = ∅
  phase : t.monitor.ledger.phase (e.site k) = st.foldedPhase r
  loops : t.monitor.ledger.loops = st.announced (e.site k)
  bridges : t.monitor.ledger.bridges = ∅
  quiet : t.monitor.Quiet
  notices : t.monitor.notices = [ns]

section

variable {s : Site} {l : Location} {r n : Nat} {h : Handle}

theorem firstStale?_lone (ds : List Handle) :
    (Guards.lone ⟨0, l, n + 1⟩).firstStale? (.lone l n ds) = none := by
  rw [Cache.firstStale?_eq_none_iff]
  intro v hv
  obtain rfl := List.mem_singleton.1 hv
  exact Versions.current?_lone l n ds

theorem addLoop_foldedCache :
    (foldedCache s l r .traced).addLoop s (.lone ⟨0, l, r + 1⟩) (foldedOps l) =
      (foldedCache s l r (.looping ⟨r + 1⟩ 0), .ok ⟨⟨r + 1⟩, []⟩) := by
  have hregister : (foldedCache s l r .traced).register (.lone ⟨0, l, r + 1⟩) =
      ({ foldedCache s l r .traced with
        versions := .lone l r [⟨r + 1⟩]
        next := r + 2 }, .ok ⟨r + 1⟩) := by
    have hall := Versions.registerAll_lone l r ⟨r + 1⟩
    simp only [Cache.register, Guards.lone, foldedCache, hall]
    rfl
  rw [Cache.addLoop, hregister]
  rfl

theorem enter_foldedCache : (foldedCache s l r (.looping h n)).enter h =
    (foldedCache s l r (.looping h (n + 1)), .entered) := by
  have hget : (foldedCache s l r (.looping h n)).get? h = some (foldedArtifact s l r h n) :=
    FinMap.find?_insert_self _ _ _
  rw [Cache.enter_of_current hget (firstStale?_lone _)]
  refine congrArg (·, EntryCheck.entered) ?_
  simp only [foldedCache, FinMap.modify_insert]
  rfl

/-- The write of the field takes the loop with it. -/
theorem retireAll_foldedCache :
    ({ foldedCache s l r (.looping ⟨r + 1⟩ n) with versions := .revoked l (r + 1) } :
      Cache).retireAll [⟨r + 1⟩] = (foldedCache s l (r + 1) (.counting 0), [⟨r + 1⟩]) := by
  let a := foldedArtifact s l r ⟨r + 1⟩ n
  let c : Cache := { foldedCache s l r (.looping ⟨r + 1⟩ n) with versions := .revoked l (r + 1) }
  have hget : c.get? ⟨r + 1⟩ = some a := FinMap.find?_insert_self _ _ _
  have hloop : c.loop? s = some ⟨r + 1⟩ := FinMap.find?_insert_self _ _ _
  have hrelease : c.versions.release ⟨r + 1⟩ a.guards.captured = c.versions :=
    Versions.release_lone l (r + 1) ⟨r + 1⟩ _ rfl
  have hloops : c.loops.erase a.site = ∅ := FinMap.erase_insert ∅ s _
  have hartifacts : c.artifacts.erase ⟨r + 1⟩ = ∅ := FinMap.erase_insert ∅ _ _
  have hdrop : c.dropLoop ⟨r + 1⟩ a =
      { versions := .revoked l (r + 1), next := r + 2, retiredCount := r } := by
    refine (if_pos hloop).trans ?_
    rw [Cache.remove, hrelease, hloops, hartifacts]
    rfl
  rw [Cache.retireAll_singleton, Cache.retire_of_loop hget rfl, hdrop]
  rfl

end

/-! ## One pass -/

def Turns (e : EntryPoint) (k : Key) (l : Location) (x : Int) (cond : Bool) (t : Tracer)
    (f : Frame) : Prop :=
  ∃ m t₁ f₁, Tracer.enterOrCount e k t = .ok m t₁ ∧
    Frame.getField l ⟨t₁, m, e⟩ = .ok (.ok x) f₁ ∧ Frame.branch cond f₁ = .ok () f

def behindFailure (k : Key) (h : Handle) (eagerness : Nat) (ops : List Op) : Mode :=
  if 1 < eagerness then .interpreting else .tracingBridge h 0 { key := k, ops := ops }

section

variable {k : Key} {h : Handle} {n : Nat} {ops : List Op}

theorem of_behindFailure {rec : Recording} (hr : (behindFailure k h n ops).recording? = some rec) :
    rec.ops = ops ∧ rec.guards = ∅ := by
  unfold behindFailure at hr
  split_ifs at hr
  · cases hr
  · obtain rfl := Option.some.inj hr
    exact ⟨rfl, rfl⟩

theorem artifact?_behindFailure : (behindFailure k h n ops).artifact? = none := by
  unfold behindFailure
  split_ifs <;> rfl

theorem recorded_behindFailure (op : Op) (t : Tracer) (e : EntryPoint) :
    Frame.recorded op ⟨t, behindFailure k h n ops, e⟩ =
      ⟨t, behindFailure k h n (ops ++ [op]), e⟩ := by
  unfold behindFailure
  split_ifs <;> rfl

end

theorem failures_forgotten (h : Handle) (c : Nat) :
    ((∅ : FinMap (Handle × Nat) Nat).insert (h, 0) c).filterKeys (fun k => decide (k.1 ∉ [h])) =
      ∅ := by
  refine FinMap.filterKeys_insert ∅ ?_ c
  simp

/-- What observers hear of the trace of a bridge whose loop is gone. -/
def strayed (e : EntryPoint) (k : Key) (eagerness : Nat) : List Notice :=
  if 1 < eagerness then [] else [.abort .bridge e k]

namespace Folds

variable {g : Settings} {e : EntryPoint} {k : Key} {l : Location} {r n : Nat} {x : Int}
  {ns : List Notice} {st : Straight} {t : Tracer} {h : Handle}

theorem notices_told (ht : Folds g e k l r x ns st t) (n? : Option Notice) (ledger : Ledger) :
    (t.monitor.told n? ledger).notices = [ns ++ n?.toList] := by
  rw [Monitor.notices_told, ht.notices]
  rfl

theorem close (ht : Folds g e k l r x ns .traced t) (hk : t.shapes.Accepts e k) :
    ∃ t', Tracer.closeLoop e (foldedRecording k l r) t = .ok () t' ∧
      Folds g e k l r x (ns ++ [foldedLoop e k l ⟨r + 1⟩]) (.looping ⟨r + 1⟩ 0) t' := by
  have hadd := addLoop_foldedCache (s := e.site k) (l := l) (r := r)
  rw [← ht.cache] at hadd
  have hfresh : t.monitor.ledger.loops.find? ⟨r + 1⟩ = none := by
    rw [ht.loops]
    rfl
  have hl := Ledger.announceLoop_eq_ok_iff.2 ⟨ht.phase, hfresh, rfl⟩
  obtain ⟨js, hclose⟩ := Tracer.closeLoop_installs (r := foldedRecording k l r) hk hadd hl ht.quiet
  refine ⟨_, hclose, ?_⟩
  constructor
  case settings => exact ht.settings
  case shapes => exact ht.shapes
  case has => exact ht.has
  case cache => rfl
  case hits => exact ht.hits
  case failures => exact ht.failures
  case phase => exact FinMap.findD_insert_self _ _ _ _
  case loops => exact congrArg (FinMap.insert · _ _) ht.loops
  case bridges => exact ht.bridges
  case quiet => exact ht.quiet.told _ _
  case notices => exact ht.notices_told _ _

/-- The code that was compiled is entered, and it expects one branch not to be taken. -/
theorem enter (ht : Folds g e k l r x ns (.looping h n) t) (hon : g.enabled = true) :
    ∃ t', Tracer.enterOrCount e k t = .ok (.running h [false] 0) t' ∧
      Folds g e k l r x ns (.looping h (n + 1)) t' := by
  have hcache : t.cache = foldedCache (e.site k) l r (.looping h n) := ht.cache
  have hs : t.cache.loop? (e.site k) = some h := by
    rw [hcache]
    exact FinMap.find?_insert_self _ _ _
  have hget : t.cache.get? h = some (foldedArtifact (e.site k) l r h n) := by
    rw [hcache]
    exact FinMap.find?_insert_self _ _ _
  obtain ⟨js, henter⟩ := Tracer.enterOrCount_of_current (ht.settings.symm ▸ hon) hs hget
    (by rw [hcache]; exact firstStale?_lone _)
  refine ⟨_, henter, { ht with cache := ?_ }⟩
  change (t.cache.enter h).1 = _
  rw [hcache, enter_foldedCache]

theorem count {b : Bool} (ht : Folds g e k l r x ns (.counting n) t) (hon : g.enabled = true)
    (hlt : n + 1 < g.threshold) : ∃ t', Turns e k l x b t ⟨t', .interpreting, e⟩ ∧
      Folds g e k l r x ns (.counting (n + 1)) t' := by
  have hhits : t.hits.findD (e.site k) 0 = n := ht.hits
  have hnone : t.cache.loop? (e.site k) = none := by
    rw [ht.cache]
    rfl
  have hcount := Tracer.countHit_below (t := t) (e := e) (k := k)
    (by rw [hhits, ht.settings]; exact hlt)
  rw [hhits] at hcount
  have henter := (Tracer.enterOrCount_of_none (ht.settings.symm ▸ hon) hnone).trans hcount
  refine ⟨_, ⟨_, _, _, henter, Frame.getField_of_get rfl ht.has.get, rfl⟩, { ht with hits := ?_ }⟩
  exact FinMap.findD_insert_self _ _ _ _

/-- With the pass that reaches the threshold a trace begins, and it holds the whole pass. -/
theorem begin (ht : Folds g e k l r x ns (.counting n) t) (hk : t.shapes.Accepts e k)
    (hon : g.enabled = true) (hfold : g.foldFields = true) (hroom : 4 ≤ g.traceLimit)
    (hge : g.threshold ≤ n + 1) :
    ∃ t', Turns e k l x false t ⟨t', .tracingLoop (foldedRecording k l r), e⟩ ∧
      Folds g e k l r x ns .traced t' := by
  obtain rfl := ht.settings
  have hhits : t.hits.findD (e.site k) 0 = n := ht.hits
  have hnone : t.cache.loop? (e.site k) = none := by
    rw [ht.cache]
    rfl
  have hidle : t.monitor.ledger.phase (e.site k) ≠ .compiling := by
    rw [ht.phase, foldedPhase]
    split_ifs <;> nofun
  obtain ⟨m, t₁, js, henter, hget⟩ := Frame.getField_of_begin (e := e) hon hnone
    (by rw [hhits]; exact hge) hk hidle ht.quiet ht.has hfold (congrArg Cache.versions ht.cache)
    (Nat.le_of_succ_le hroom)
  refine ⟨_, ⟨m, t₁, _, henter, hget, Frame.branch_of_tracingLoop (by exact hroom) false⟩, ?_⟩
  constructor
  case settings => rfl
  case shapes => exact ht.shapes
  case has => exact ht.has
  case cache =>
    exact congrArg (fun c : Cache => { c with versions := .lone l r [] }) ht.cache
  case hits => exact FinMap.findD_insert_self _ _ _ _
  case failures => exact ht.failures
  case phase => exact FinMap.findD_insert_self _ _ _ _
  case loops => exact ht.loops
  case bridges => exact ht.bridges
  case quiet => exact ht.quiet.told _ _
  case notices => exact (ht.notices_told _ _).trans (congrArg (fun l => [l]) (List.append_nil ns))

theorem loop (ht : Folds g e k l r x ns (.looping h n) t) (hon : g.enabled = true) :
    ∃ t', Turns e k l x false t ⟨t', .running h [false] 1, e⟩ ∧
      Folds g e k l r x ns (.looping h (n + 1)) t' := by
  obtain ⟨t', henter, ht'⟩ := ht.enter hon
  exact ⟨t', ⟨_, t', _, henter, Frame.getField_of_get rfl ht'.has.get, rfl⟩, ht'⟩

/-- Another direction than was traced fails the guard: the failure is counted, or the trace of a
bridge begins. -/
theorem fail (ht : Folds g e k l r x ns (.looping h n) t) (hon : g.enabled = true)
    (hpos : 1 ≤ g.traceEagerness) :
    ∃ t' c js, Turns e k l x true t ⟨{ t' with
        failures := (∅ : FinMap (Handle × Nat) Nat).insert (h, 0) c
        journal := js }, behindFailure k h g.traceEagerness [], e⟩ ∧
      Folds g e k l r x ns (.looping h (n + 1)) t' := by
  obtain ⟨t', henter, ht'⟩ := ht.enter hon
  have hget : t'.cache.get? h = some (foldedArtifact (e.site k) l r h (n + 1)) := by
    rw [ht'.cache]
    exact FinMap.find?_insert_self _ _ _
  have hbridge : t'.cache.bridge? h 0 = none := by
    simp only [Cache.bridge?, hget]
    rfl
  have hfailures : t'.failures.findD (h, 0) 0 = 0 := by
    rw [ht'.failures]
    rfl
  have hbranch := Frame.branch_eq true ⟨t', .running h [false] 0, e⟩
  rcases Nat.lt_or_eq_of_le hpos with hlt | heq
  · obtain ⟨js, hfail⟩ := Tracer.guardFailed_below hbridge hget
      (by rw [hfailures, ht'.settings]; exact hlt)
    rw [ht'.failures] at hfail
    simp only [hfail] at hbranch
    refine ⟨t', 1, js, ⟨_, t', _, henter, Frame.getField_of_get rfl ht'.has.get, ?_⟩, ht'⟩
    rw [behindFailure, if_pos hlt]
    exact hbranch
  · obtain ⟨js, hfail⟩ := Tracer.guardFailed_reached hbridge hget
      (by rw [hfailures, ht'.settings]; exact heq.ge)
    rw [ht'.failures] at hfail
    simp only [hfail] at hbranch
    refine ⟨t', 0, js, ⟨_, t', _, henter, Frame.getField_of_get rfl ht'.has.get, ?_⟩, ht'⟩
    rw [behindFailure, if_neg heq.not_lt]
    exact hbranch

/-- The write of the field retires the loop. The trace of a bridge goes on without it. -/
theorem write (ht : Folds g e k l r x ns (.looping ⟨r + 1⟩ n) t) (hroom : 1 ≤ g.traceLimit)
    (c : Nat) (js : List Entry) (value : Int) :
    ∃ t', Frame.setField l value ⟨{ t with
          failures := (∅ : FinMap (Handle × Nat) Nat).insert (⟨r + 1⟩, 0) c
          journal := js }, behindFailure k ⟨r + 1⟩ g.traceEagerness [], e⟩ =
        .ok (.ok ()) ⟨t', behindFailure k ⟨r + 1⟩ g.traceEagerness [.setField l], e⟩ ∧
      Folds g e k l (r + 1) value ns (.counting 0) t' := by
  obtain rfl := ht.settings
  let f : Frame := ⟨{ t with
    failures := (∅ : FinMap (Handle × Nat) Nat).insert (⟨r + 1⟩, 0) c
    journal := js }, behindFailure k ⟨r + 1⟩ t.settings.traceEagerness [], e⟩
  have hcache : t.cache = foldedCache (e.site k) l r (.looping ⟨r + 1⟩ n) := ht.cache
  have hrevoke := Versions.invalidate?_lone l r [⟨r + 1⟩]
  have hretire := retireAll_foldedCache (s := e.site k) (l := l) (r := r) (n := n)
  rw [← hcache] at hretire
  obtain ⟨t₁, heap, js₁, hset, hhas, ht₁⟩ := Frame.setField_uncovered (f := f)
    (fun rec hrec => by
      obtain ⟨hops, hguards⟩ := of_behindFailure hrec
      exact ⟨hops ▸ hroom, hguards ▸ List.not_mem_nil⟩)
    ht.has (by change t.cache.versions.invalidate? l = _; rw [hcache]; exact hrevoke) value
  rw [recorded_behindFailure] at hset
  obtain ⟨js₂, hrevoked⟩ := Frame.revoked_of_singleton
    (i := ⟨⟨0, l, r + 1⟩, r + 2, [⟨r + 1⟩]⟩)
    (f := ⟨t₁, behindFailure k ⟨r + 1⟩ t.settings.traceEagerness [.setField l], e⟩) rfl
    (by rw [ht₁]; exact hretire) artifact?_behindFailure
  subst ht₁
  refine ⟨_, hset.trans (congrArg _ hrevoked), ?_⟩
  have hforget := Ledger.forget_of_loop (l := t.monitor.ledger) (h := ⟨r + 1⟩) (s := e.site k)
    (by rw [ht.bridges]; rfl)
    (by rw [ht.loops]; exact FinMap.find?_insert_self _ _ _)
    (by rw [ht.phase]; rfl)
  constructor
  case settings => rfl
  case shapes => exact ht.shapes
  case has => exact hhas
  case cache => rfl
  case hits => exact ht.hits
  case failures => exact failures_forgotten ⟨r + 1⟩ c
  case phase =>
    change Ledger.phase (t.monitor.ledger.forget ⟨r + 1⟩) _ = _
    rw [hforget]
    exact FinMap.findD_insert_self _ _ _ _
  case loops =>
    change (t.monitor.ledger.forget ⟨r + 1⟩).loops = _
    rw [hforget, ht.loops]
    exact FinMap.erase_insert ∅ _ _
  case bridges =>
    change (t.monitor.ledger.forget ⟨r + 1⟩).bridges = _
    rw [hforget]
    exact ht.bridges
  case quiet => exact ht.quiet
  case notices => exact ht.notices

/-- The head of the loop gives up the trace of a bridge whose loop is gone. -/
theorem resume (ht : Folds g e k l (r + 1) x ns (.counting n) t) (hk : t.shapes.Accepts e k)
    (h : Handle) (ops : List Op) :
    ∃ t', Tracer.mergePoint e k (behindFailure k h g.traceEagerness ops) t =
        Tracer.enterOrCount e k t' ∧
      Folds g e k l (r + 1) x (ns ++ strayed e k g.traceEagerness) (.counting n) t' ∧
      t'.shapes = t.shapes := by
  unfold behindFailure strayed
  split_ifs with hlt
  · exact ⟨t, Tracer.mergePoint_of_idle rfl, (List.append_nil ns).symm ▸ ht, rfl⟩
  · have hdead : t.cache.get? h = none := by
      rw [ht.cache]
      rfl
    have hsettled : Ledger.Settled (t.monitor.ledger.phase (e.site k)) := by
      rw [ht.phase]
      exact ⟨nofun, nofun, nofun⟩
    have hl := Ledger.abort_settled .bridge hsettled
    obtain ⟨js, hclose⟩ := Tracer.closeBridge_of_dead (i := 0) (r := { key := k, ops := ops })
      hdead hk hl ht.quiet
    refine ⟨_, Tracer.mergePoint_of_closeBridge hclose, ?_, rfl⟩
    exact { ht with quiet := ht.quiet.told _ _, notices := ht.notices_told _ _ }

/-- One pass in the direction that is traced, from the loop head on. -/
theorem turn (ht : Folds g e k l r x ns st t) {m : Mode} (hm : st.FitsFolded k l r m)
    (hk : t.shapes.Accepts e k) (hon : g.enabled = true) (hfold : g.foldFields = true)
    (hroom : 4 ≤ g.traceLimit) :
    ∃ t' f, Tracer.mergePoint e k m t = Tracer.enterOrCount e k t' ∧ Turns e k l x false t' f ∧
      Folds g e k l r x (ns ++ st.closing (foldedLoop e k l) ⟨r + 1⟩)
        (st.next g.threshold ⟨r + 1⟩) f.tracer ∧
      (st.next g.threshold ⟨r + 1⟩).FitsFolded k l r f.mode := by
  cases st with
  | counting n =>
      rw [Tracer.mergePoint_of_idle hm, closing, List.append_nil, next]
      split_ifs with hlt
      · obtain ⟨t', hturns, ht'⟩ := ht.count hon hlt
        exact ⟨t, _, rfl, hturns, ht', rfl⟩
      · obtain ⟨t', hturns, ht'⟩ := ht.begin hk hon hfold hroom (Nat.le_of_not_lt hlt)
        exact ⟨t, _, rfl, hturns, ht', rfl⟩
  | traced =>
      obtain ⟨t₁, hclose, ht₁⟩ := ht.close hk
      obtain ⟨t', hturns, ht'⟩ := ht₁.loop hon
      obtain rfl : m = .tracingLoop (foldedRecording k l r) := hm
      exact ⟨t₁, _, Tracer.mergePoint_of_closeLoop hclose, hturns, ht', rfl⟩
  | looping h n =>
      obtain ⟨t', hturns, ht'⟩ := ht.loop hon
      rw [Tracer.mergePoint_of_idle hm, closing, List.append_nil]
      exact ⟨t, _, rfl, hturns, ht', rfl⟩

end Folds

end Straight

/-! ## A run -/

namespace Program

def weightAt (s : Nat) (scale newScale : Int) (i : Nat) : Int := if i ≤ s then scale else newScale

def scaledState (s : Nat) (scale newScale : Int) (i : Nat) : CountUp :=
  ⟨i, ∑ j ∈ Finset.range i, j * weightAt s scale newScale j⟩

/-- The terms and the partial sums are words all the way. -/
structure FitsScaledSum (n s : Nat) (scale newScale : Int) : Prop where
  passes : FitsWord n
  term {i : Nat} (hi : i < n) : FitsWord (i * weightAt s scale newScale i)
  total {i : Nat} (hi : i ≤ n) : FitsWord (scaledState s scale newScale i).total

theorem scaledState_succ (s : Nat) (scale newScale : Int) (i : Nat) :
    scaledState s scale newScale (i + 1) =
      ⟨(scaledState s scale newScale i).i + 1, (scaledState s scale newScale i).total +
        (scaledState s scale newScale i).i * weightAt s scale newScale i⟩ := by
  simp only [scaledState, Finset.sum_range_succ, CountUp.mk.injEq, and_true]
  push_cast
  rfl

/-- `j` passes have kept the weight `x` since a loop was retired the `r`-th time, when observers had
heard `ns`. -/
structure Weighs (g : Settings) (e : EntryPoint) (cfg : ObjectId) (r : Nat) (x : Int)
    (ns : List Notice) (j : Nat) (m : Mode) (t : Tracer) : Prop where
  folds : (Straight.course g.threshold ⟨r + 1⟩ j).Folds g e (objectKey cfg) ⟨cfg, "scale"⟩ r x
    (ns ++ (Straight.course g.threshold ⟨r + 1⟩ j).news
      (foldedLoop e (objectKey cfg) ⟨cfg, "scale"⟩)) t
  fits : (Straight.course g.threshold ⟨r + 1⟩ j).FitsFolded (objectKey cfg) ⟨cfg, "scale"⟩ r m

theorem mulWord_eq {a b : Int} (h : FitsWord (a * b)) : mulWord a b = .ok (a * b) := if_pos h

section

variable {e : EntryPoint} {cfg : ObjectId} {n s newScale w : Int} {c : CountUp}
  {f f₁ f₂ f₃ : Frame}

structure FitsPass (w : Int) (c : CountUp) : Prop where
  term : FitsWord (c.i * w)
  total : FitsWord (c.total + c.i * w)
  next : FitsWord (c.i + 1)

theorem scaledSum_finishes (hf : FitsPass w c) (hs : c.i ≠ s)
    (hget : Frame.getField ⟨cfg, "scale"⟩ f = .ok (.ok w) f₁)
    (hbranch : Frame.branch false f₁ = .ok () f₂) :
    ((scaledSum e cfg n s newScale).body c).Finishes f c [f, f₁, f₂] f₂
      ⟨c.i + 1, c.total + c.i * w⟩ := by
  refine .getField hget ?_
  simp only [Body.orFail, mulWord_eq hf.term, addWord_eq hf.total, addWord_eq hf.next,
    Body.orFault, hs, decide_false, if_false]
  exact .keep (.branch hbranch (.keep (.done _ _)))

theorem scaledSum_finishes_switch (hf : FitsPass w c) (hs : c.i = s)
    (hget : Frame.getField ⟨cfg, "scale"⟩ f = .ok (.ok w) f₁)
    (hbranch : Frame.branch true f₁ = .ok () f₂)
    (hset : Frame.setField ⟨cfg, "scale"⟩ newScale f₂ = .ok (.ok ()) f₃) :
    ((scaledSum e cfg n s newScale).body c).Finishes f c [f, f₁, f₂, f₃] f₃
      ⟨c.i + 1, c.total + c.i * w⟩ := by
  refine .getField hget ?_
  simp only [Body.orFail, mulWord_eq hf.term, addWord_eq hf.total, addWord_eq hf.next,
    Body.orFault, ← hs, decide_true, if_true]
  exact .keep (.branch hbranch (.setField hset (.keep (.done _ _))))

end

section

variable {g : Settings} {e : EntryPoint} {cfg : ObjectId} {n s i r : Nat} {scale newScale x : Int}
  {ns : List Notice} {st : Straight} {t : Tracer} {m : Mode}

theorem FitsScaledSum.pass (hf : FitsScaledSum n s scale newScale) (hi : i < n) :
    FitsPass (weightAt s scale newScale i) (scaledState s scale newScale i) where
  term := hf.term hi
  total := by
    have htotal := hf.total (Nat.succ_le_of_lt hi)
    rwa [scaledState_succ] at htotal
  next := by
    obtain ⟨hlow, hhigh⟩ := hf.passes
    change FitsWord ((i : Int) + 1)
    exact ⟨by omega, by omega⟩

/-- A pass that keeps the weight, with what its loop head, read and branch make of the tracer. -/
theorem scaledSum_passes (hf : FitsScaledSum n s scale newScale) (hi : i < n) (hs : i ≠ s)
    (hw : weightAt s scale newScale i = x) (harity : e.arity = 1)
    (hshapes : t.shapes.Allows e [.ref]) {P : Frame → Prop}
    (hturn : ∀ shapes : Shapes, shapes.Allows e [.ref] → shapes.Accepts e (objectKey cfg) →
      ∃ t' f, Tracer.mergePoint e (objectKey cfg) m { t with shapes := shapes } =
          Tracer.enterOrCount e (objectKey cfg) t' ∧
        Straight.Turns e (objectKey cfg) ⟨cfg, "scale"⟩ x false t' f ∧ P f) :
    ∃ fs, ∃ f : Frame, (scaledSum e cfg n s newScale).Passes
        ⟨m, t, scaledState s scale newScale i⟩ fs
        ⟨f.mode, f.tracer, scaledState s scale newScale (i + 1)⟩ ∧ fs.length = 3 ∧ P f := by
  obtain ⟨shapes, hcheck, hallows⟩ := hshapes.check (k := objectKey cfg) harity.symm rfl
  obtain ⟨t', f, hmerge, ⟨m₁, t₁, f₁, henter, hget, hbranch⟩, hP⟩ :=
    hturn shapes hallows (Shapes.accepts_of_check hcheck)
  have hfit := hf.pass hi
  have hsucc := scaledState_succ s scale newScale i
  rw [hw] at hfit hsucc
  have hfinishes : ((scaledSum e cfg n s newScale).body _).Finishes _ _ _ _ _ :=
    scaledSum_finishes hfit (fun h => hs (Int.ofNat_inj.1 h)) hget hbranch
  have hcontinues : decide ((i : Int) < n) = true := decide_eq_true (Int.ofNat_lt.2 hi)
  have hpasses := passes_of_finishes (p := scaledSum e cfg n s newScale)
    (x := ⟨m, t, scaledState s scale newScale i⟩) hcontinues hcheck (hmerge.trans henter) hfinishes
  rw [← hsucc] at hpasses
  exact ⟨_, f, hpasses, rfl, hP⟩

theorem Weighs.turn {j : Nat} (h : Weighs g e cfg r x ns j m t)
    (hk : t.shapes.Accepts e (objectKey cfg)) (hon : g.enabled = true)
    (hfold : g.foldFields = true) (hroom : 4 ≤ g.traceLimit) :
    ∃ t' f, Tracer.mergePoint e (objectKey cfg) m t = Tracer.enterOrCount e (objectKey cfg) t' ∧
      Straight.Turns e (objectKey cfg) ⟨cfg, "scale"⟩ x false t' f ∧
      Weighs g e cfg r x ns (j + 1) f.mode f.tracer := by
  obtain ⟨t', f, hmerge, hturns, hfolds, hfits⟩ := h.folds.turn h.fits hk hon hfold hroom
  rw [Straight.next_course] at hfolds hfits
  rw [List.append_assoc, Straight.news_course] at hfolds
  exact ⟨t', f, hmerge, hturns, hfolds, hfits⟩

theorem Weighs.looping {j : Nat} (h : Weighs g e cfg r x ns j m t) (hj : g.threshold ≤ j)
    (hk : t.shapes.Accepts e (objectKey cfg)) :
    ∃ t' c, Tracer.mergePoint e (objectKey cfg) m t = Tracer.enterOrCount e (objectKey cfg) t' ∧
      (Straight.looping ⟨r + 1⟩ c).Folds g e (objectKey cfg) ⟨cfg, "scale"⟩ r x
        (ns ++ [foldedLoop e (objectKey cfg) ⟨cfg, "scale"⟩ ⟨r + 1⟩]) t' := by
  obtain ⟨hfolds, hfits⟩ := h
  rcases Nat.lt_or_eq_of_le hj with hlt | heq
  · rw [Straight.course_looping hlt] at hfolds hfits
    exact ⟨t, _, Tracer.mergePoint_of_idle hfits, hfolds⟩
  · rw [Straight.course_traced heq.symm] at hfolds hfits
    obtain ⟨t', hclose, ht'⟩ := hfolds.close hk
    obtain rfl : m = _ := hfits
    rw [Straight.news, List.append_nil] at ht'
    exact ⟨t', 0, Tracer.mergePoint_of_closeLoop hclose, ht'⟩

theorem Weighs.checked {j : Nat} (h : Weighs g e cfg r x ns j m t) {shapes : Shapes}
    (hs : shapes.Allows e [.ref]) : Weighs g e cfg r x ns j m { t with shapes := shapes } where
  folds := { h.folds with shapes := hs }
  fits := h.fits

theorem scaledSum_travels (hf : FitsScaledSum n s scale newScale) (harity : e.arity = 1)
    (hon : g.enabled = true) (hfold : g.foldFields = true) (hroom : 4 ≤ g.traceLimit)
    (i passes : Nat) {j : Nat}
    (hkeep : ∀ d < passes, i + d < n ∧ i + d ≠ s ∧ weightAt s scale newScale (i + d) = x)
    (h : Weighs g e cfg r x ns j m t) :
    ∃ fs m' t', (scaledSum e cfg n s newScale).Travels ⟨m, t, scaledState s scale newScale i⟩ passes
        fs ⟨m', t', scaledState s scale newScale (i + passes)⟩ ∧ fs.length = 3 * passes ∧
      Weighs g e cfg r x ns (j + passes) m' t' := by
  let I : Nat → List Frame → Point CountUp → Prop := fun d past y => ∃ m t,
    y = ⟨m, t, scaledState s scale newScale (i + d)⟩ ∧ past.length = 3 * d ∧
      Weighs g e cfg r x ns (j + d) m t
  obtain ⟨fs, _, htravels, m', t', rfl, hlength, h'⟩ :=
    exists_travels (p := scaledSum e cfg n s newScale) (n := passes) (I := I)
      ⟨m, t, rfl, rfl, h⟩ (by
      rintro d hd past _ ⟨m, t, rfl, hlength, h⟩
      obtain ⟨hi, hs, hw⟩ := hkeep d hd
      obtain ⟨fs, f, hpasses, hfs, h'⟩ := scaledSum_passes hf hi hs hw harity h.folds.shapes
        fun shapes hallows hk => (h.checked hallows).turn hk hon hfold hroom
      exact ⟨fs, _, hpasses, f.mode, f.tracer, rfl, by rw [List.length_append]; omega, h'⟩)
  exact ⟨fs, m', t', htravels, hlength, h'⟩

/-- The pass that changes the weight takes the loop with it, while its trace of a bridge may go
on. -/
theorem scaledSum_switches {j : Nat} (hf : FitsScaledSum n s scale newScale) (hs : s < n)
    (harity : e.arity = 1) (hon : g.enabled = true) (he : 1 ≤ g.traceEagerness)
    (hroom : 1 ≤ g.traceLimit) (hj : g.threshold ≤ j) (h : Weighs g e cfg r scale ns j m t) :
    ∃ f f₁ f₂ t', (scaledSum e cfg n s newScale).Passes ⟨m, t, scaledState s scale newScale s⟩
        [f, f₁, f₂, ⟨t', Straight.behindFailure (objectKey cfg) ⟨r + 1⟩ g.traceEagerness
          [.setField ⟨cfg, "scale"⟩], e⟩]
        ⟨Straight.behindFailure (objectKey cfg) ⟨r + 1⟩ g.traceEagerness
          [.setField ⟨cfg, "scale"⟩], t', scaledState s scale newScale (s + 1)⟩ ∧
      Frame.setField ⟨cfg, "scale"⟩ newScale f₂ = .ok (.ok ())
        ⟨t', Straight.behindFailure (objectKey cfg) ⟨r + 1⟩ g.traceEagerness
          [.setField ⟨cfg, "scale"⟩], e⟩ ∧
      f₂.tracer.cache.isLive ⟨r + 1⟩ = true ∧
      (Straight.counting 0).Folds g e (objectKey cfg) ⟨cfg, "scale"⟩ (r + 1) newScale
        (ns ++ [foldedLoop e (objectKey cfg) ⟨cfg, "scale"⟩ ⟨r + 1⟩]) t' := by
  obtain ⟨shapes, hcheck, hallows⟩ := h.folds.shapes.check (k := objectKey cfg) harity.symm rfl
  obtain ⟨t₀, c, hmerge, ht₀⟩ := (h.checked hallows).looping hj (Shapes.accepts_of_check hcheck)
  obtain ⟨t₁, b, js, ⟨m₁, t₂, f₁, henter, hget, hbranch⟩, ht₁⟩ := ht₀.fail hon he
  obtain ⟨t', hset, ht'⟩ := ht₁.write hroom b js newScale
  have hweight : weightAt s scale newScale s = scale := if_pos le_rfl
  have hfit := hf.pass hs
  have hsucc := scaledState_succ s scale newScale s
  rw [hweight] at hfit hsucc
  have hfinishes := scaledSum_finishes_switch (e := e) (n := n) (s := s) hfit rfl hget hbranch hset
  have hcontinues : decide ((s : Int) < n) = true := decide_eq_true (Int.ofNat_lt.2 hs)
  have hpasses := passes_of_finishes (p := scaledSum e cfg n s newScale)
    (x := ⟨m, t, scaledState s scale newScale s⟩) hcontinues hcheck (hmerge.trans henter) hfinishes
  rw [← hsucc] at hpasses
  have hlive : t₁.cache.isLive ⟨r + 1⟩ = true := by
    rw [Cache.isLive_iff, ht₁.cache]
    exact ⟨_, FinMap.find?_insert_self _ _ _⟩
  exact ⟨_, _, _, t', hpasses, hset, hlive, ht'⟩

/-- The pass behind the change of the weight is the first that counts towards the next loop. -/
theorem scaledSum_resumes (hf : FitsScaledSum n s scale newScale) (hs : s + 1 < n)
    (harity : e.arity = 1) (hon : g.enabled = true) (hfold : g.foldFields = true)
    (hroom : 4 ≤ g.traceLimit) (hpos : 1 ≤ g.threshold) (h : Handle) (ops : List Op)
    (ht : (Straight.counting 0).Folds g e (objectKey cfg) ⟨cfg, "scale"⟩ (r + 1) newScale ns t) :
    ∃ fs, ∃ f : Frame, (scaledSum e cfg n s newScale).Passes
        ⟨Straight.behindFailure (objectKey cfg) h g.traceEagerness ops, t,
          scaledState s scale newScale (s + 1)⟩ fs
        ⟨f.mode, f.tracer, scaledState s scale newScale (s + 2)⟩ ∧ fs.length = 3 ∧
      Weighs g e cfg (r + 1) newScale
        (ns ++ Straight.strayed e (objectKey cfg) g.traceEagerness) 1 f.mode f.tracer := by
  refine scaledSum_passes hf hs (Nat.succ_ne_self s) (if_neg (Nat.not_succ_le_self s)) harity
    ht.shapes fun shapes hallows hk => ?_
  have ht₀ : (Straight.counting 0).Folds g e (objectKey cfg) ⟨cfg, "scale"⟩ (r + 1) newScale ns
      { t with shapes := shapes } := { ht with shapes := hallows }
  obtain ⟨t₁, hresume, ht₁, hshapes⟩ := ht₀.resume hk h ops
  have hweighs : Weighs g e cfg (r + 1) newScale
      (ns ++ Straight.strayed e (objectKey cfg) g.traceEagerness) 0 .interpreting t₁ := by
    have hcourse : Straight.course g.threshold ⟨r + 1 + 1⟩ 0 = .counting 0 :=
      Straight.course_counting hpos
    constructor
    · rw [hcourse]
      exact (List.append_nil _).symm ▸ ht₁
    · rw [hcourse]
      rfl
  obtain ⟨t', f, hmerge, hturns, h'⟩ := hweighs.turn (hshapes ▸ hk) hon hfold hroom
  exact ⟨t', f, hresume.trans hmerge, hturns, h'⟩

/-- What a whole run makes of a site that is new to the tracer: with the write of the field the
first loop goes, and behind it the second is compiled and entered. -/
theorem scaledSum_travels_all (hf : FitsScaledSum n s scale newScale) (harity : e.arity = 1)
    (hon : g.enabled = true) (hfold : g.foldFields = true) (ht : 1 ≤ g.threshold)
    (hts : g.threshold ≤ s) (hn : s + g.threshold + 1 < n) (he : 1 ≤ g.traceEagerness)
    (hroom : 4 ≤ g.traceLimit) (h : Weighs g e cfg 0 scale [] 0 m t) :
    ∃ before f f' after m' t', (scaledSum e cfg n s newScale).Travels
        ⟨m, t, scaledState s scale newScale 0⟩ n (before ++ f :: f' :: after)
        ⟨m', t', scaledState s scale newScale n⟩ ∧ before.length = 3 * s + 2 ∧
      Frame.setField ⟨cfg, "scale"⟩ newScale f = .ok (.ok ()) f' ∧
      f.tracer.cache.isLive ⟨1⟩ = true ∧ f'.tracer.cache.isLive ⟨1⟩ = false ∧
      Weighs g e cfg 1 newScale ([foldedLoop e (objectKey cfg) ⟨cfg, "scale"⟩ ⟨1⟩] ++
        Straight.strayed e (objectKey cfg) g.traceEagerness) (n - s - 1) m' t' := by
  -- up to the change of the weight, which finds the first loop
  obtain ⟨fs, m₁, t₁, htravels, hlength, h₁⟩ := scaledSum_travels hf harity hon hfold hroom 0 s
    (fun d hd => ⟨by omega, by omega, if_pos (by omega)⟩) h
  rw [Nat.zero_add] at htravels h₁
  obtain ⟨f, f₁, f₂, t₂, hswitch, hset, hlive, ht₂⟩ :=
    scaledSum_switches hf (by omega) harity hon he (by omega) hts h₁
  have hdead : t₂.cache.isLive ⟨1⟩ = false := by
    rw [ht₂.cache]
    rfl
  obtain ⟨gs, f₃, hresume, -, h₃⟩ :=
    scaledSum_resumes hf (by omega) harity hon hfold hroom ht ⟨1⟩ [.setField ⟨cfg, "scale"⟩] ht₂
  obtain ⟨gs', m', t', htravels', -, h'⟩ := scaledSum_travels hf harity hon hfold hroom (s + 2)
    (n - (s + 2)) (fun d hd => ⟨by omega, by omega, if_neg (by omega)⟩) h₃
  have hall := ((htravels.pass hswitch).pass hresume).trans htravels'
  have hpasses : s + 1 + 1 + (n - (s + 2)) = n := by omega
  have hbehind : 1 + (n - (s + 2)) = n - s - 1 := by omega
  rw [hpasses] at hall
  rw [hbehind] at h'
  refine ⟨fs ++ [f, f₁], f₂, _, gs ++ gs', m', t', ?_, ?_, hset, hlive, hdead, h'⟩
  · simpa [Nat.add_sub_cancel' (show s + 2 ≤ n by omega)] using hall
  · simp [hlength]

end

theorem exists_allocConfig (scale : Int) :
    ∃ h, allocConfig {} scale = .ok (h, ⟨0⟩) ∧ h.Has ⟨⟨0⟩, "scale"⟩ scale := by
  have hdeclares : ObjectClass.declares "Config" "scale" "scale?" = true := by decide +kernel
  obtain ⟨c, h, hmake, halloc, hhas⟩ := Heap.exists_make_alloc hdeclares scale
  refine ⟨h, ?_, hhas⟩
  rw [allocConfig, hmake]
  exact halloc

theorem scaledState_total (n s : Nat) (hs : s < n) (scale newScale : Int) :
    scaledState s scale newScale n = ⟨n, ∑ i ∈ Finset.range (s + 1), i * scale +
      ∑ i ∈ Finset.Ico (s + 1) n, i * newScale⟩ := by
  refine congrArg (CountUp.mk n) ((Finset.sum_range_add_sum_Ico _ hs).symm.trans ?_)
  congr 1
  · refine Finset.sum_congr rfl fun i hi => ?_
    rw [weightAt, if_pos (Nat.le_of_lt_succ (Finset.mem_range.1 hi))]
  · refine Finset.sum_congr rfl fun i hi => ?_
    rw [weightAt, if_neg (Nat.not_le.2 (Finset.mem_Ico.1 hi).1)]

theorem weighs_listening {g : Settings} (ht : 1 ≤ g.threshold) (e : EntryPoint) {h : Heap}
    {cfg : ObjectId} {scale : Int} (hhas : h.Has ⟨cfg, "scale"⟩ scale) :
    Weighs g e cfg 0 scale [] 0 .interpreting { listening g with heap := h } := by
  have hcourse : Straight.course g.threshold ⟨0 + 1⟩ 0 = .counting 0 := Straight.course_counting ht
  constructor
  · rw [hcourse]
    exact ⟨rfl, (fun _ hfixed => nomatch hfixed), hhas, rfl, rfl, rfl, rfl, rfl, rfl,
      quiet_listening g, rfl⟩
  · rw [hcourse]
    rfl

/-- The sum on a new tracer, with a change of the weight once its loop was compiled and entered:
the write retires the loop, and the loop is compiled again under the same key. If the branch of that
pass began the trace of a bridge, that is given up in between. -/
theorem run_scaledSum (id n s : Nat) (scale newScale : Int) (g : Settings)
    (hf : FitsScaledSum n s scale newScale) (hon : g.enabled = true) (hfold : g.foldFields = true)
    (ht : 1 ≤ g.threshold) (hts : g.threshold ≤ s) (hn : s + g.threshold + 1 < n)
    (he : 1 ≤ g.traceEagerness) (hroom : 4 ≤ g.traceLimit) :
    let e := scaledSumEntry id
    ∃ h cfg t, allocConfig {} scale = .ok (h, cfg) ∧
      let p := scaledSum e cfg n s newScale
      let l : Location := ⟨cfg, "scale"⟩
      let k := objectKey cfg
      p.run ({ listening g with heap := h }, {}) = .ok (.ok ()) (t, ⟨n,
          ∑ i ∈ Finset.range (s + 1), i * scale + ∑ i ∈ Finset.Ico (s + 1) n, i * newScale⟩) ∧
        t.monitor.notices = [foldedLoop e k l ⟨1⟩ ::
          Straight.strayed e k g.traceEagerness ++ [foldedLoop e k l ⟨2⟩]] ∧
        (∃ before f f' after,
          p.moments (p.passes {}) .interpreting { listening g with heap := h } {} =
              before ++ f :: f' :: after ∧
            before.length = 3 * s + 2 ∧ Frame.setField l newScale f = .ok (.ok ()) f' ∧
            f.tracer.cache.isLive ⟨1⟩ = true ∧ f'.tracer.cache.isLive ⟨1⟩ = false) ∧
        t.cache.isLive ⟨1⟩ = false ∧ t.cache.loop? (e.site k) = some ⟨2⟩ ∧
        t.cache.liveCount = 1 ∧ t.cache.retiredCount = 1 ∧
        (t.cache.get? ⟨2⟩).map Artifact.entries = some (n - s - g.threshold - 1) ∧
        t.cache.versions.dependents l = [⟨2⟩] ∧ t.cache.versions.tracked = 1 ∧
        t.cache.versions.allocated = 2 ∧ t.cache.versions.invalidations = 1 := by
  intro e
  obtain ⟨h, halloc, hhas⟩ := exists_allocConfig scale
  obtain ⟨before, f, f', after, m, t, htravels, hlength, hset, hlive, hdead, hweighs⟩ :=
    scaledSum_travels_all (e := e) hf rfl hon hfold ht hts hn he hroom (weighs_listening ht e hhas)
  have hstage : Straight.course g.threshold ⟨2⟩ (n - s - 1) = .looping ⟨2⟩ _ :=
    Straight.course_looping (by omega)
  have hentries : n - s - 1 - g.threshold = n - s - g.threshold - 1 := by omega
  obtain ⟨hfolds, hfits⟩ := hweighs
  rw [hstage, hentries] at hfolds hfits
  obtain ⟨hrun, hmoments⟩ := run_of_travels htravels (congrArg Int.toNat (sub_zero (n : Int)))
  rw [leave_eq _ (Tracer.leaveLoop_of_idle hfits), scaledState_total n s (by omega)] at hrun
  have hcache := hfolds.cache
  refine ⟨h, ⟨0⟩, t, halloc, hrun, hfolds.notices, ⟨before, f, f', after, hmoments, hlength, hset,
    hlive, hdead⟩, ?_, ?_, ?_, ?_, ?_, ?_, ?_, ?_, ?_⟩
  all_goals rw [hcache]
  · rfl
  · exact FinMap.find?_insert_self _ _ _
  · rfl
  · rfl
  · rfl
  · exact Versions.dependents_lone _ _ _
  · rfl
  · rfl
  · rfl

/-- With a first failure that begins the trace of a bridge, that trace is given up between the two
loops. -/
theorem run_scaledSum_ten :
    let e := scaledSumEntry 0
    let g : Settings := { Settings.eager with traceEagerness := 1 }
    ∃ h cfg t, allocConfig {} 2 = .ok (h, cfg) ∧
      (scaledSum e cfg (10 : Nat) (4 : Nat) 5).run ({ listening g with heap := h }, {}) =
        .ok (.ok ()) (t, ⟨10, 195⟩) ∧
      t.monitor.notices = [[foldedLoop e (objectKey cfg) ⟨cfg, "scale"⟩ ⟨1⟩,
        .abort .bridge e (objectKey cfg), foldedLoop e (objectKey cfg) ⟨cfg, "scale"⟩ ⟨2⟩]] ∧
      (t.cache.get? ⟨2⟩).map Artifact.entries = some 2 := by
  have hf : FitsScaledSum 10 4 2 5 := by
    constructor
    case passes => decide
    case term =>
      intro i hi
      interval_cases i <;> decide
    case total =>
      intro i hi
      interval_cases i <;> decide
  intro e g
  obtain ⟨h, cfg, t, halloc, hrun, hnotices, -, -, -, -, -, hentries, -⟩ := run_scaledSum 0 10 4 2 5
    g hf rfl rfl (by decide) (by decide) (by decide) (by decide) (by decide)
  exact ⟨h, cfg, t, halloc, hrun, hnotices, hentries⟩

end Program

end HotLoop
