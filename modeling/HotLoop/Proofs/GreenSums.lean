import HotLoop.Proofs.Stretches

/-!
# Sums under several keys

Runs of the sum of a green value share the sites of one entry point, one for each key. A site
without a loop keeps the passes left over from earlier runs; with the pass that reaches the
threshold a trace begins, and the next pass makes it a loop, which is never retired.
-/

namespace HotLoop

open Code Journal Lifecycle Trace

def straightOps : List Op := [.label, .jump]

def straightLoop (e : EntryPoint) (k : Key) (h : Handle) : Notice :=
  .compile e k h straightOps .loop 0 0

def compiledLoops (ns : List Notice) : List (Key × Handle) :=
  ns.filterMap fun n => n.loop?.map fun x => (x.1, x.2.2)

/-! ## The code of all sites -/

namespace Code.Cache

/-- The live code is one loop without guards and branches for each of the keys, with the handle
beside it, and nothing was ever retired. -/
structure Straight (e : EntryPoint) (loops : List (Key × Handle)) (c : Cache) : Prop where
  code {h : Handle} {a : Artifact} : c.get? h = some a →
    h.number < c.next ∧ a.guards = ∅ ∧ a.operations = straightOps
  loop {s : Site} {h : Handle} : c.loop? s = some h → ∃ a, c.get? h = some a ∧ a.site = s
  mem_iff {k : Key} {h : Handle} : (k, h) ∈ loops ↔ c.loop? (e.site k) = some h
  nodup : (loops.map Prod.fst).Nodup
  liveCount : c.liveCount = loops.length
  retiredCount : c.retiredCount = 0

namespace Straight

variable {e : EntryPoint} {k : Key} {loops : List (Key × Handle)} {c : Cache} {h : Handle}
  {a : Artifact}

theorem empty (e : EntryPoint) : Straight e [] {} where
  code hc := by cases hc
  loop hl := by cases hl
  mem_iff := iff_of_false List.not_mem_nil nofun
  nodup := List.nodup_nil
  liveCount := rfl
  retiredCount := rfl

theorem get?_next (hc : c.Straight e loops) : c.get? ⟨c.next⟩ = none := by
  by_contra hsome
  obtain ⟨a, ha⟩ := Option.ne_none_iff_exists'.1 hsome
  exact absurd (hc.code ha).1 (lt_irrefl _)

theorem ne_next (hc : c.Straight e loops) (ha : c.get? h = some a) : h ≠ ⟨c.next⟩ := by
  rintro rfl
  rw [hc.get?_next] at ha
  cases ha

def add (c : Cache) (s : Site) : Cache :=
  putLoop { c with next := c.next + 1 } ⟨c.next⟩ s ∅ straightOps

theorem loop?_add (c : Cache) (s s' : Site) :
    (add c s).loop? s' = if s' = s then some ⟨c.next⟩ else c.loop? s' := loop?_putLoop _ _

theorem get?_add (c : Cache) (s : Site) (j : Handle) :
    (add c s).get? j =
      if j = ⟨c.next⟩ then some (newLoop ⟨c.next⟩ s ∅ straightOps) else c.get? j := get?_putLoop _ _

theorem addLoop_eq {s : Site} (hs : c.loop? s = none) :
    c.addLoop s ∅ straightOps = (add c s, .ok ⟨⟨c.next⟩, []⟩) := by
  have hvacate : (c.register ∅).1.vacate s = ({ c with next := c.next + 1 }, []) :=
    vacate_of_none hs
  rw [addLoop_of_current rfl, hvacate]
  rfl

theorem get?_add_of_some (hc : c.Straight e loops) (s : Site) (ha : c.get? h = some a) :
    (add c s).get? h = some a := by
  rw [get?_add, if_neg (hc.ne_next ha), ha]

theorem added (hc : c.Straight e loops) (hk : c.loop? (e.site k) = none) :
    (add c (e.site k)).Straight e (loops ++ [(k, ⟨c.next⟩)]) := by
  constructor
  case code =>
    intro j a ha
    rw [get?_add] at ha
    split_ifs at ha with hj
    · obtain rfl := Option.some.inj ha
      subst hj
      exact ⟨Nat.lt_succ_self _, rfl, rfl⟩
    · exact ⟨(hc.code ha).1.trans (Nat.lt_succ_self _), (hc.code ha).2⟩
  case loop =>
    intro s j hj
    rw [loop?_add] at hj
    split_ifs at hj with hs
    · obtain rfl := Option.some.inj hj
      exact ⟨_, (get?_add _ _ _).trans (if_pos rfl), hs.symm⟩
    · obtain ⟨a, ha, has⟩ := hc.loop hj
      exact ⟨a, hc.get?_add_of_some _ ha, has⟩
  case mem_iff =>
    intro k' j
    rw [List.mem_append, List.mem_singleton, hc.mem_iff, loop?_add, Prod.mk.injEq]
    split_ifs with hs
    · obtain rfl : k' = k := congrArg Site.key hs
      simp [hk, eq_comm]
    · have hk' : k' ≠ k := fun hk' => hs (congrArg e.site hk')
      simp [hk']
  case nodup =>
    rw [List.map_append]
    refine hc.nodup.append (List.nodup_singleton k) ?_
    rintro k' hk' hmem
    obtain rfl := List.mem_singleton.1 hmem
    obtain ⟨⟨_, j⟩, hj, rfl⟩ := List.mem_map.1 hk'
    rw [hc.mem_iff, hk] at hj
    cases hj
  case liveCount =>
    rw [List.length_append, ← hc.liveCount]
    exact FinMap.size_insert hc.get?_next _
  case retiredCount => exact hc.retiredCount

theorem entered (hc : c.Straight e loops) (h : Handle) :
    Straight e loops { c with artifacts := c.artifacts.modify h Artifact.entered } := by
  constructor
  case code =>
    intro j a' ha'
    obtain ⟨a, n, ha, rfl⟩ := of_get?_entered ha'
    have hcode := hc.code ha
    exact hcode
  case loop =>
    intro s j hj
    obtain ⟨a, ha, has⟩ := hc.loop hj
    obtain ⟨n, ha'⟩ := get?_entered_of_some ha h
    exact ⟨_, ha', has⟩
  case mem_iff => exact hc.mem_iff
  case nodup => exact hc.nodup
  case liveCount => exact (FinMap.size_modify _ _ _).trans hc.liveCount
  case retiredCount => exact hc.retiredCount

end Straight

end Code.Cache

/-! ## The tracer between two passes -/

/-- Where the site of a loop stands between two passes, as long as no branch fails. -/
inductive Straight where
  | counting (hits : Nat)
  /-- The last pass was traced. -/
  | traced
  | looping (loop : Handle) (entries : Nat)
  deriving DecidableEq

namespace Tracer

/-- The tracer has run nothing but loops without branches under keys of two integers of `e`.
Observers have heard `ns`, and a trace is open at most for the site `opened`. -/
structure Straightens (g : Settings) (e : EntryPoint) (opened : Option Site) (ns : List Notice)
    (t : Tracer) : Prop where
  settings : t.settings = g
  shapes : t.shapes.Allows e [.int, .int]
  quiet : t.monitor.Quiet
  notices : t.monitor.notices = [ns]
  cache : t.cache.Straight e (compiledLoops ns)
  phase (s : Site) : t.monitor.ledger.phase s = .compiling ↔ opened = some s
  unannounced {h : Handle} : t.cache.next ≤ h.number → t.monitor.ledger.loops.find? h = none
  hits_lt (s : Site) : t.hits.findD s 0 < g.threshold
  idle {s : Site} {h : Handle} : t.cache.loop? s = some h → t.hits.findD s 0 = 0

structure Beside (s : Site) (t t' : Tracer) : Prop where
  hits {s' : Site} (hs : s' ≠ s) : t'.hits.findD s' 0 = t.hits.findD s' 0
  loop {s' : Site} (hs : s' ≠ s) : t'.cache.loop? s' = t.cache.loop? s'
  code {s' : Site} {h : Handle} (hs : s' ≠ s) (hl : t.cache.loop? s' = some h) :
    t'.cache.get? h = t.cache.get? h

namespace Beside

variable {s : Site} {t t' t'' : Tracer}

theorem refl (s : Site) (t : Tracer) : Beside s t t := ⟨fun _ => rfl, fun _ => rfl, fun _ _ => rfl⟩

theorem trans (h : Beside s t t') (h' : Beside s t' t'') : Beside s t t'' where
  hits hs := (h'.hits hs).trans (h.hits hs)
  loop hs := (h'.loop hs).trans (h.loop hs)
  code hs hl := (h'.code hs ((h.loop hs).trans hl)).trans (h.code hs hl)

theorem of_cache (hc : t'.cache = t.cache)
    (hh : ∀ s', s' ≠ s → t'.hits.findD s' 0 = t.hits.findD s' 0) : Beside s t t' :=
  ⟨hh _, fun _ => by rw [hc], fun _ _ => by rw [hc]⟩

theorem of_hits {n : Nat} (hc : t'.cache = t.cache) (hh : t'.hits = t.hits.insert s n) :
    Beside s t t' :=
  of_cache hc fun s' hs => by rw [hh, FinMap.findD_insert, if_neg hs]

end Beside

namespace Straightens

variable {g : Settings} {e : EntryPoint} {s : Site} {o : Option Site} {ns : List Notice}
  {t : Tracer}

theorem notices_told (h : t.Straightens g e o ns) (n? : Option Notice) (l : Ledger) :
    (t.monitor.told n? l).notices = [ns ++ n?.toList] := by
  rw [Monitor.notices_told, h.notices]
  rfl

/-- A site without a loop may have any count below the threshold. -/
theorem setHits (h : t.Straightens g e o ns) (hs : t.cache.loop? s = none) {n : Nat}
    (hn : n < g.threshold) : Straightens g e o ns { t with hits := t.hits.insert s n } := by
  have hinsert := FinMap.findD_insert t.hits s
  refine { h with hits_lt := fun s' => ?_, idle := fun {s' j} hj => ?_ }
  · refine (hinsert s' n 0).trans_lt ?_
    split_ifs
    · exact hn
    · exact h.hits_lt s'
  · refine (hinsert s' n 0).trans ((if_neg ?_).trans (h.idle hj))
    rintro rfl
    cases hs.symm.trans hj

theorem phase_insert (h : t.Straightens g e (some s) ns) {p : Phase} (hp : p ≠ .compiling)
    (s' : Site) : Ledger.phase { t.monitor.ledger with
      phases := t.monitor.ledger.phases.insert s p } s' = .compiling ↔ none = some s' := by
  refine (Eq.congr_left (Ledger.phase_insert _ _ s' _)).trans (iff_of_false ?_ nofun)
  split_ifs with hs
  · exact hp
  · exact fun hc => hs (Option.some.inj ((h.phase s').1 hc)).symm

end Straightens

end Tracer

namespace Straight

def hits : Straight → Nat
  | .counting n => n
  | _ => 0

def loop? : Straight → Option Handle
  | .looping h _ => some h
  | _ => none

def opened (s : Site) : Straight → Option Site
  | .traced => some s
  | _ => none

def Fits (k : Key) : Straight → Mode → Prop
  | .traced, m => m = .tracingLoop { key := k, ops := [.label] }
  | _, m => m.recording? = none

structure At (g : Settings) (e : EntryPoint) (k : Key) (fresh : Handle) (ns : List Notice)
    (st : Straight) (m : Mode) (t : Tracer) : Prop
    extends t.Straightens g e (st.opened (e.site k)) ns where
  hits : t.hits.findD (e.site k) 0 = st.hits
  loop?_eq : t.cache.loop? (e.site k) = st.loop?
  entries {h : Handle} {n : Nat} : st = .looping h n →
    (t.cache.get? h).map Artifact.entries = some n
  next_eq : st.loop? = none → fresh = ⟨t.cache.next⟩
  mode : st.Fits k m
  accepted : st = .traced → t.shapes.Accepts e k

namespace At

variable {g : Settings} {e : EntryPoint} {k : Key} {fresh j : Handle} {ns : List Notice}
  {st : Straight} {m : Mode} {t : Tracer} {n : Nat}

theorem count (h : (counting n).At g e k fresh ns m t) (hon : g.enabled = true)
    (hlt : n + 1 < g.threshold) : ∃ t', Tracer.enterOrCount e k t = .ok .interpreting t' ∧
      (counting (n + 1)).At g e k fresh ns .interpreting t' ∧ Tracer.Beside (e.site k) t t' := by
  have hhits : t.hits.findD (e.site k) 0 = n := h.hits
  have hhead := Tracer.enterOrCount_of_none (h.settings.symm ▸ hon) h.loop?_eq
  have hcount := Tracer.countHit_below (t := t) (e := e) (k := k)
    (by rw [hhits, h.settings]; exact hlt)
  rw [hhits] at hcount
  exact ⟨_, hhead.trans hcount, ⟨h.toStraightens.setHits h.loop?_eq hlt,
    FinMap.findD_insert_self _ _ _ _, h.loop?_eq, nofun, h.next_eq, rfl, nofun⟩, .of_hits rfl rfl⟩

theorem begin (h : (counting n).At g e k fresh ns m t) (hon : g.enabled = true)
    (hge : g.threshold ≤ n + 1) (hk : t.shapes.Accepts e k) :
    ∃ m' t', Tracer.enterOrCount e k t = .ok m' t' ∧ traced.At g e k fresh ns m' t' ∧
      Tracer.Beside (e.site k) t t' := by
  have hhits : t.hits.findD (e.site k) 0 = n := h.hits
  have hhead := Tracer.enterOrCount_of_none (h.settings.symm ▸ hon) h.loop?_eq
  have hidle : t.monitor.ledger.phase (e.site k) ≠ .compiling := by
    rw [ne_eq, h.phase]
    nofun
  obtain ⟨js, hcount⟩ := Tracer.countHit_reached (t := t) (e := e) (k := k)
    (by rw [hhits, h.settings]; exact hge) hk hidle h.quiet
  have hset := h.toStraightens.setHits h.loop?_eq ((Nat.zero_le _).trans_lt (h.hits_lt (e.site k)))
  refine ⟨_, _, hhead.trans hcount, ?_, .of_hits rfl rfl⟩
  refine ⟨{ hset with
    quiet := h.quiet.told _ _
    notices := ?_
    phase := fun s => ?_ }, FinMap.findD_insert_self _ _ _ _, h.loop?_eq, nofun, h.next_eq, rfl,
    fun _ => hk⟩
  · rw [h.notices_told]
    exact congrArg (fun l => [l]) (List.append_nil ns)
  · refine (Eq.congr_left (Ledger.phase_insert _ _ s _)).trans ?_
    split_ifs with hs
    · exact iff_of_true rfl (congrArg some hs.symm)
    · exact iff_of_false (mt (h.phase s).1 nofun) fun he => hs (Option.some.inj he).symm

/-- At the head of the loop the trace becomes a loop under the fresh handle. -/
theorem close (h : traced.At g e k fresh ns m t) (hk : t.shapes.Accepts e k) :
    ∃ t', Tracer.closeLoop e { key := k, ops := [.label] } t = .ok () t' ∧
      (looping fresh 0).At g e k fresh (ns ++ [straightLoop e k fresh]) .interpreting t' ∧
      Tracer.Beside (e.site k) t t' := by
  obtain rfl : fresh = ⟨t.cache.next⟩ := h.next_eq rfl
  have hadd : t.cache.addLoop (e.site k) ∅ straightOps = _ := Cache.Straight.addLoop_eq h.loop?_eq
  have hl := Ledger.announceLoop_eq_ok_iff.2
    ⟨(h.phase _).2 rfl, h.unannounced (h := ⟨t.cache.next⟩) le_rfl, rfl⟩
  obtain ⟨js, hclose⟩ := Tracer.closeLoop_installs
    (r := { key := k, ops := [.label] }) hk hadd hl h.quiet
  have hloop := Cache.Straight.loop?_add t.cache (e.site k)
  have hget := Cache.Straight.get?_add t.cache (e.site k)
  refine ⟨_, hclose, ⟨?sites, h.hits, (hloop _).trans (if_pos rfl), ?entries, nofun, rfl, nofun⟩,
    ?beside⟩
  case sites =>
    constructor
    case settings => exact h.settings
    case shapes => exact h.shapes
    case quiet => exact h.quiet.told _ _
    case notices => exact h.notices_told _ _
    case cache =>
      have hcompiled : compiledLoops (ns ++ [straightLoop e k ⟨t.cache.next⟩]) =
          compiledLoops ns ++ [(k, ⟨t.cache.next⟩)] := List.filterMap_append
      rw [hcompiled]
      exact h.cache.added h.loop?_eq
    case phase => exact h.phase_insert nofun
    case unannounced =>
      intro j hj
      have hj : t.cache.next + 1 ≤ j.number := hj
      refine (FinMap.find?_insert_of_ne ?_ _).trans (h.unannounced ((Nat.le_succ _).trans hj))
      rintro rfl
      exact absurd hj (Nat.not_succ_le_self _)
    case hits_lt => exact h.hits_lt
    case idle =>
      intro s j hj
      have hj : (Cache.Straight.add t.cache (e.site k)).loop? s = some j := hj
      rw [hloop] at hj
      split_ifs at hj with hs
      · exact hs ▸ h.hits
      · exact h.idle hj
  case entries =>
    intro j n hj
    cases hj
    exact congrArg (Option.map Artifact.entries) ((hget _).trans (if_pos rfl))
  case beside =>
    refine ⟨fun _ => rfl, fun hs => (hloop _).trans (if_neg hs), fun {s' j} hs hj => ?_⟩
    obtain ⟨a, ha, -⟩ := h.cache.loop hj
    exact (hget j).trans (if_neg (h.cache.ne_next ha))

/-- The loop is entered, and it checks no branches. -/
theorem enter (h : (looping j n).At g e k fresh ns m t) (hon : g.enabled = true) :
    ∃ t', Tracer.enterOrCount e k t = .ok (.running j [] 0) t' ∧
      (looping j (n + 1)).At g e k fresh ns (.running j [] 0) t' ∧
      Tracer.Beside (e.site k) t t' := by
  obtain ⟨a, ha, has⟩ := h.cache.loop h.loop?_eq
  obtain ⟨-, hguards, hops⟩ := h.cache.code ha
  have hcurrent : a.guards.firstStale? t.cache.versions = none := by rw [hguards]; rfl
  obtain ⟨js, henter⟩ :=
    Tracer.enterOrCount_of_current (h.settings.symm ▸ hon) h.loop?_eq ha hcurrent
  rw [hops, Cache.enter_of_current ha hcurrent] at henter
  have hget := Cache.get?_entered t.cache j
  refine ⟨_, henter, ⟨{ h.toStraightens with cache := h.cache.entered j }, h.hits, h.loop?_eq,
    fun {i n'} hi => ?_, nofun, rfl, nofun⟩, ⟨fun _ => rfl, fun _ => rfl, fun {s' i} hs hi => ?_⟩⟩
  · cases hi
    have hn := h.entries rfl
    rw [ha] at hn
    refine (congrArg (Option.map Artifact.entries) ((hget j).trans (if_pos rfl))).trans ?_
    rw [ha]
    exact congrArg some (congrArg (· + 1) (Option.some.inj hn))
  · -- the loop of another site is another one
    obtain ⟨b, hb, hbs⟩ := h.cache.loop hi
    refine (hget i).trans (if_neg ?_)
    rintro rfl
    rw [ha] at hb
    exact hs (hbs.symm.trans (Option.some.inj hb ▸ has))

end At

/-! ## One pass -/

/-- One pass, where `fresh` is the handle of the next loop. -/
def next (threshold : Nat) (fresh : Handle) : Straight → Straight
  | .counting n => if n + 1 < threshold then .counting (n + 1) else .traced
  | .traced => .looping fresh 1
  | .looping h n => .looping h (n + 1)

def closing (told : Handle → Notice) (fresh : Handle) : Straight → List Notice
  | .counting _ => []
  | .traced => [told fresh]
  | .looping _ _ => []

def parting (e : EntryPoint) (k : Key) : Straight → List Notice
  | .counting _ => []
  | .traced => [.abort .badLoop e k]
  | .looping _ _ => []

namespace At

variable {g : Settings} {e : EntryPoint} {k : Key} {fresh : Handle} {ns : List Notice}
  {st : Straight} {m : Mode} {t : Tracer}

theorem turn (h : st.At g e k fresh ns m t) (hon : g.enabled = true)
    (hk : t.shapes.Accepts e k) : ∃ m' t', Tracer.mergePoint e k m t = .ok m' t' ∧
      (st.next g.threshold fresh).At g e k fresh (ns ++ st.closing (straightLoop e k) fresh) m' t' ∧
      Tracer.Beside (e.site k) t t' ∧ ∀ j n, st = looping j n → m' = .running j [] 0 := by
  cases st with
  | counting n =>
      rw [Tracer.mergePoint_of_idle h.mode, closing, List.append_nil, next]
      split_ifs with hlt
      · obtain ⟨t', henter, ht', hb⟩ := h.count hon hlt
        exact ⟨_, t', henter, ht', hb, nofun⟩
      · obtain ⟨m', t', henter, ht', hb⟩ := h.begin hon (Nat.le_of_not_lt hlt) hk
        exact ⟨m', t', henter, ht', hb, nofun⟩
  | traced =>
      obtain ⟨t₁, hclose, ht₁, hb₁⟩ := h.close hk
      obtain ⟨t', henter, ht', hb⟩ := ht₁.enter hon
      obtain rfl : m = .tracingLoop { key := k, ops := [.label] } := h.mode
      exact ⟨_, t', (Tracer.mergePoint_of_closeLoop hclose).trans henter, ht', hb₁.trans hb, nofun⟩
  | looping j n =>
      obtain ⟨t', henter, ht', hb⟩ := h.enter hon
      rw [Tracer.mergePoint_of_idle h.mode, closing, List.append_nil]
      exact ⟨_, t', henter, ht', hb, fun j' n' he => by cases he; rfl⟩

theorem leave (h : st.At g e k fresh ns m t) : ∃ t', Tracer.leaveLoop e m t = .ok () t' ∧
    t'.Straightens g e none (ns ++ st.parting e k) ∧ t'.cache = t.cache ∧ t'.hits = t.hits := by
  cases st with
  | traced =>
      have hl : t.monitor.ledger.abort .badLoop e k = .ok _ :=
        Ledger.abort_eq_ok_iff.2 (Or.inl ⟨(h.phase _).2 rfl, rfl⟩)
      obtain ⟨js, hleave⟩ :=
        Tracer.leaveLoop_aborts (Or.inl ⟨h.mode, rfl⟩) (h.accepted rfl) hl h.quiet
      refine ⟨_, hleave, { h.toStraightens with
        quiet := h.quiet.told _ _
        notices := h.notices_told _ _
        cache := ?_
        phase := h.phase_insert nofun }, rfl, rfl⟩
      have hsame : compiledLoops (ns ++ [.abort .badLoop e k]) = compiledLoops ns :=
        List.filterMap_append.trans (List.append_nil _)
      exact hsame.symm ▸ h.cache
  | counting n =>
      rw [parting, List.append_nil]
      exact ⟨t, Tracer.leaveLoop_of_idle h.mode, h.toStraightens, rfl, rfl⟩
  | looping j n =>
      rw [parting, List.append_nil]
      exact ⟨t, Tracer.leaveLoop_of_idle h.mode, h.toStraightens, rfl, rfl⟩

end At

/-! ## Passes from leftovers on -/

/-- The site behind `n` passes without a loop, of which the first are those left over. -/
def course (threshold : Nat) (fresh : Handle) (n : Nat) : Straight :=
  if n < threshold then .counting n
  else if n = threshold then .traced
  else .looping fresh (n - threshold)

section

variable {threshold n : Nat} {fresh : Handle}

theorem course_counting (h : n < threshold) : course threshold fresh n = .counting n := if_pos h

theorem course_traced (h : n = threshold) : course threshold fresh n = .traced := by
  rw [course, if_neg (by omega), if_pos h]

theorem course_looping (h : threshold < n) :
    course threshold fresh n = .looping fresh (n - threshold) := by
  rw [course, if_neg (by omega), if_neg (by omega)]

theorem next_course (threshold : Nat) (fresh : Handle) (n : Nat) :
    (course threshold fresh n).next threshold fresh = course threshold fresh (n + 1) := by
  unfold course
  split_ifs <;> simp only [next] <;> grind

end

def news (told : Handle → Notice) : Straight → List Notice
  | .counting _ => []
  | .traced => []
  | .looping h _ => [told h]

theorem news_course (told : Handle → Notice) (threshold : Nat) (fresh : Handle) (n : Nat) :
    (course threshold fresh n).news told ++ (course threshold fresh n).closing told fresh =
      (course threshold fresh (n + 1)).news told := by
  unfold course
  split_ifs <;> first | rfl | omega

end Straight

/-! ## One run -/

namespace Program

/-- The number of passes, and the sum that they make, are words. -/
def FitsSum (n m : Int) : Prop := FitsWord m ∧ FitsWord (n * m.toNat)

instance (n m : Int) : Decidable (FitsSum n m) := inferInstanceAs (Decidable (_ ∧ _))

def greenKey (n m : Int) : Key := ⟨[.int n, .int m]⟩

section

variable {e : EntryPoint} {n m : Int} {g : Settings} {fresh : Handle} {ns : List Notice}
  {st : Straight} {t : Tracer}

theorem FitsSum.part (h : FitsSum n m) {i : Nat} (hi : i ≤ m.toNat) :
    FitsWord i ∧ FitsWord (n * i) := by
  obtain ⟨⟨hm, hm'⟩, hs, hs'⟩ := h
  refine ⟨⟨by omega, by omega⟩, ?_⟩
  have hi' : (i : Int) ≤ m.toNat := Int.ofNat_le.2 hi
  rcases le_total 0 n with hn | hn
  · have hle : n * i ≤ n * m.toNat := mul_le_mul_of_nonneg_left hi' hn
    have hpos : 0 ≤ n * i := mul_nonneg hn (Int.natCast_nonneg i)
    exact ⟨by omega, by omega⟩
  · have hle : n * m.toNat ≤ n * i := mul_le_mul_of_nonpos_left hi' hn
    have hneg : n * i ≤ 0 := mul_nonpos_of_nonpos_of_nonneg hn (Int.natCast_nonneg i)
    exact ⟨by omega, by omega⟩

theorem FitsSum.pass (h : FitsSum n m) {i : Nat} (hi : i < m.toNat) :
    FitsWord ((i : Int) + 1) ∧ FitsWord (n * i + n) := by
  have hpart := h.part (i := i + 1) hi
  push_cast at hpart
  rwa [mul_add, mul_one] at hpart

theorem greenSum_finishes {s : CountUp} (ht : FitsWord (s.total + n)) (hi : FitsWord (s.i + 1))
    (f : Frame) : ((greenSum e n m).body s).Finishes f s [f] f ⟨s.i + 1, s.total + n⟩ := by
  simp only [greenSum, addWord_eq ht, addWord_eq hi, Body.orFault]
  exact .keep (.keep (.done _ _))

/-- A pass is its loop head, and then a body that asks nothing of the tracer. -/
theorem greenSum_passes (hf : FitsSum n m) (harity : e.arity = 2) (hon : g.enabled = true) {i : Nat}
    (hi : i < m.toNat) {x : Point CountUp} (hx : x.state = ⟨i, n * i⟩)
    (h : st.At g e (greenKey n m) fresh ns x.mode x.tracer) :
    ∃ m' t', (greenSum e n m).Passes x [⟨t', m', e⟩] ⟨m', t', ⟨(i + 1 : Nat), n * (i + 1 : Nat)⟩⟩ ∧
      (st.next g.threshold fresh).At g e (greenKey n m) fresh
        (ns ++ st.closing (straightLoop e (greenKey n m)) fresh) m' t' ∧
      Tracer.Beside (e.site (greenKey n m)) x.tracer t' ∧
      ∀ j l, st = .looping j l → m' = .running j [] 0 := by
  obtain ⟨shapes, hcheck, hallows⟩ := h.shapes.check (k := greenKey n m) harity.symm rfl
  have haccepts := Shapes.accepts_of_check hcheck
  have hx₀ : st.At g e (greenKey n m) fresh ns x.mode { x.tracer with shapes := shapes } :=
    { h with shapes := hallows, accepted := fun _ => haccepts }
  obtain ⟨m', t', hmerge, ht', hbeside, hmode⟩ := hx₀.turn hon haccepts
  have hfinishes := greenSum_finishes (e := e) (n := n) (m := m) (s := x.state)
    (by rw [hx]; exact (hf.pass hi).2) (by rw [hx]; exact (hf.pass hi).1) ⟨t', m', e⟩
  have hcontinues : (greenSum e n m).continues x.state = true := by
    have hlt : (i : Int) < m := by omega
    rw [hx]
    exact decide_eq_true hlt
  have hpasses := passes_of_finishes hcontinues hcheck hmerge hfinishes
  rw [hx] at hpasses
  refine ⟨m', t', ?_, ht', ⟨hbeside.hits, hbeside.loop, hbeside.code⟩, hmode⟩
  push_cast
  rw [mul_add, mul_one]
  exact hpasses

/-- A run takes the site of its key through the stages from `stage 0` on. -/
theorem greenSum_travels (stage : Nat → Straight) (heard : Nat → List Notice) (hf : FitsSum n m)
    (harity : e.arity = 2) (hon : g.enabled = true) (h₀ : heard 0 = [])
    (hstage : ∀ i, (stage i).next g.threshold fresh = stage (i + 1))
    (hheard : ∀ i,
      heard i ++ (stage i).closing (straightLoop e (greenKey n m)) fresh = heard (i + 1))
    (ht : (stage 0).At g e (greenKey n m) fresh ns .interpreting t) :
    ∃ fs m' t', (greenSum e n m).Travels ⟨.interpreting, t, {}⟩ m.toNat fs
        ⟨m', t', ⟨m.toNat, n * m.toNat⟩⟩ ∧ fs.length = m.toNat ∧
      (stage m.toNat).At g e (greenKey n m) fresh (ns ++ heard m.toNat) m' t' ∧
      Tracer.Beside (e.site (greenKey n m)) t t' ∧
      ∀ f ∈ fs, ∃ i, ∀ j l, stage i = .looping j l → f.mode = .running j [] 0 := by
  let I : Nat → List Frame → Point CountUp → Prop := fun i past x =>
    x.state = ⟨i, n * i⟩ ∧ past.length = i ∧
    (stage i).At g e (greenKey n m) fresh (ns ++ heard i) x.mode x.tracer ∧
    Tracer.Beside (e.site (greenKey n m)) t x.tracer ∧
    ∀ f ∈ past, ∃ i, ∀ j l, stage i = .looping j l → f.mode = .running j [] 0
  have hI₀ : I 0 [] ⟨.interpreting, t, {}⟩ :=
    ⟨by simp, rfl, by rwa [h₀, List.append_nil], .refl _ _, fun f hf => absurd hf List.not_mem_nil⟩
  obtain ⟨fs, ⟨m', t', s⟩, htravels, hs, hlength, hat, hbeside, hmodes⟩ :=
    exists_travels (p := greenSum e n m) (n := m.toNat) hI₀ (by
      rintro i hi past y ⟨hy, hlength, hat, hbeside, hmodes⟩
      obtain ⟨m', t', hpasses, ht', hbeside', hmode⟩ := greenSum_passes hf harity hon hi hy hat
      refine ⟨_, _, hpasses, rfl, by simp [hlength], ?_, hbeside.trans hbeside', fun f hf => ?_⟩
      · rwa [hstage, List.append_assoc, hheard] at ht'
      · rcases List.mem_append.1 hf with hf | hf
        · exact hmodes f hf
        · obtain rfl := List.mem_singleton.1 hf
          exact ⟨i, hmode⟩)
  dsimp only at hs
  subst hs
  exact ⟨fs, m', t', htravels, hlength, hat, hbeside, hmodes⟩

theorem run_greenSum_of_stage (stage : Nat → Straight) (heard : Nat → List Notice)
    (hf : FitsSum n m) (harity : e.arity = 2) (hon : g.enabled = true) (h₀ : heard 0 = [])
    (hstage : ∀ i, (stage i).next g.threshold fresh = stage (i + 1))
    (hheard : ∀ i,
      heard i ++ (stage i).closing (straightLoop e (greenKey n m)) fresh = heard (i + 1))
    (ht : (stage 0).At g e (greenKey n m) fresh ns .interpreting t) :
    ∃ fs t', (greenSum e n m).run (t, {}) = .ok (.ok ()) (t', ⟨m.toNat, n * m.toNat⟩) ∧
      (greenSum e n m).moments ((greenSum e n m).passes {}) .interpreting t {} = fs ∧
      t'.Straightens g e none
        (ns ++ heard m.toNat ++ (stage m.toNat).parting e (greenKey n m)) ∧
      t'.hits.findD (e.site (greenKey n m)) 0 = (stage m.toNat).hits ∧
      t'.cache.loop? (e.site (greenKey n m)) = (stage m.toNat).loop? ∧
      (∀ h l, stage m.toNat = .looping h l →
        (t'.cache.get? h).map Artifact.entries = some l) ∧
      fs.length = m.toNat ∧ Tracer.Beside (e.site (greenKey n m)) t t' ∧
      ∀ f ∈ fs, ∃ i, ∀ j l, stage i = .looping j l → f.mode = .running j [] 0 := by
  obtain ⟨fs, m', t₁, htravels, hlength, hat, hbeside, hmodes⟩ :=
    greenSum_travels stage heard hf harity hon h₀ hstage hheard ht
  obtain ⟨t', hleave, ht', hcache, hhits⟩ := hat.leave
  have hpasses : (greenSum e n m).passes {} = m.toNat := congrArg Int.toNat (sub_zero m)
  obtain ⟨hrun, hmoments⟩ := run_of_travels htravels hpasses
  rw [leave_eq (greenSum e n m) hleave] at hrun
  refine ⟨fs, t', hrun, hmoments, ht', ?_, ?_, ?_, hlength, hbeside.trans ?_, hmodes⟩
  · rw [hhits, hat.hits]
  · rw [hcache, hat.loop?_eq]
  · intro h l hst
    rw [hcache, hat.entries hst]
  · exact .of_cache hcache fun _ _ => by rw [hhits]

end

/-- What a run of `passes` passes under `k` makes of the tracer `t`, through the moments `fs`. -/
structure Straightened (e : EntryPoint) (k : Key) (passes : Nat) (t : Tracer) (fs : List Frame)
    (t' : Tracer) : Prop where
  length : fs.length = passes
  leftover : t.hits.findD (e.site k) 0 < t.settings.threshold
  /-- Passes that do not suffice for a trace are left over and not reported. -/
  below (hs : t.cache.loop? (e.site k) = none)
    (hp : passes < t.settings.threshold - t.hits.findD (e.site k) 0) :
    t'.hits.findD (e.site k) 0 = t.hits.findD (e.site k) 0 + passes ∧
      t'.cache.loop? (e.site k) = none ∧ t'.monitor.notices = t.monitor.notices
  /-- A trace that begins with the last pass is given up, and the site begins anew. -/
  aborted (hs : t.cache.loop? (e.site k) = none)
    (hp : passes = t.settings.threshold - t.hits.findD (e.site k) 0) :
    t'.hits.findD (e.site k) 0 = 0 ∧ t'.cache.loop? (e.site k) = none ∧
      t'.monitor.notices = t.monitor.notices.map (· ++ [.abort .badLoop e k])
  /-- A trace that begins before is compiled, and entered with all passes behind it. -/
  compiled (hs : t.cache.loop? (e.site k) = none)
    (hp : t.settings.threshold - t.hits.findD (e.site k) 0 < passes) :
    t'.hits.findD (e.site k) 0 = 0 ∧ ∃ h, t'.cache.loop? (e.site k) = some h ∧
      (t'.cache.get? h).map Artifact.entries =
        some (passes - (t.settings.threshold - t.hits.findD (e.site k) 0)) ∧
      t'.monitor.notices = t.monitor.notices.map (· ++ [straightLoop e k h])
  /-- A loop that is there is entered with each pass, and nothing is reported. -/
  entered {h : Handle} {n : Nat} (hs : t.cache.loop? (e.site k) = some h)
    (hn : (t.cache.get? h).map Artifact.entries = some n) :
    t'.cache.loop? (e.site k) = some h ∧
      (t'.cache.get? h).map Artifact.entries = some (n + passes) ∧
      t'.monitor.notices = t.monitor.notices ∧ ∀ f ∈ fs, f.mode = .running h [] 0
  /-- Runs under other keys notice nothing of it. -/
  beside : Tracer.Beside (e.site k) t t'

section

variable {e : EntryPoint} {n m : Int} {g : Settings} {ns : List Notice} {t : Tracer}

/-- A run under a key without a loop takes up the passes left over. -/
theorem run_greenSum_of_none (hf : FitsSum n m) (harity : e.arity = 2) (hon : g.enabled = true)
    (ht : t.Straightens g e none ns) (hs : t.cache.loop? (e.site (greenKey n m)) = none) :
    let p := greenSum e n m
    ∃ t' ns', p.run (t, {}) = .ok (.ok ()) (t', ⟨m.toNat, n * m.toNat⟩) ∧
      t'.Straightens g e none ns' ∧ Straightened e (greenKey n m) m.toNat t
        (p.moments (p.passes {}) .interpreting t {}) t' := by
  intro p
  obtain rfl := ht.settings
  let k := greenKey n m
  let c := t.hits.findD (e.site k) 0
  let fresh : Handle := ⟨t.cache.next⟩
  let stage : Nat → Straight := fun i => .course t.settings.threshold fresh (c + i)
  have hlt : c < t.settings.threshold := ht.hits_lt _
  have h₀ : stage 0 = .counting c := Straight.course_counting hlt
  have hat : (stage 0).At t.settings e k fresh ns .interpreting t := by
    rw [h₀]
    exact ⟨ht, rfl, hs, nofun, fun _ => rfl, rfl, nofun⟩
  obtain ⟨fs, t', hrun, hfs, ht', hhits, hloop, hentries, hlength, hbeside, -⟩ :=
    run_greenSum_of_stage stage (fun i => (stage i).news (straightLoop e k)) hf harity hon
      (by rw [h₀]; rfl) (fun i => Straight.next_course _ _ _)
      (fun i => Straight.news_course _ _ _ _) hat
  rw [hfs]
  have hnotices := ht'.notices
  refine ⟨t', _, hrun, ht', hlength, hlt, ?below, ?aborted, ?compiled, ?entered, hbeside⟩
  case below =>
    intro _ (hp : m.toNat < t.settings.threshold - c)
    have hst : stage m.toNat = .counting (c + m.toNat) := Straight.course_counting (by omega)
    rw [hst] at hhits hloop hnotices
    refine ⟨hhits, hloop, ?_⟩
    rw [hnotices, ht.notices, Straight.news, Straight.parting, List.append_nil, List.append_nil]
  case aborted =>
    intro _ (hp : m.toNat = t.settings.threshold - c)
    have hst : stage m.toNat = .traced := Straight.course_traced (by omega)
    rw [hst] at hhits hloop hnotices
    refine ⟨hhits, hloop, ?_⟩
    rw [hnotices, ht.notices, Straight.news, Straight.parting, List.append_nil]
    rfl
  case compiled =>
    intro _ (hp : t.settings.threshold - c < m.toNat)
    have hst : stage m.toNat = .looping fresh (c + m.toNat - t.settings.threshold) :=
      Straight.course_looping (by omega)
    have hn : c + m.toNat - t.settings.threshold = m.toNat - (t.settings.threshold - c) := by omega
    rw [hst, hn] at hhits hloop hnotices
    refine ⟨hhits, fresh, hloop, ?_, ?_⟩
    · exact hentries fresh _ (hn ▸ hst)
    · rw [hnotices, ht.notices, Straight.news, Straight.parting, List.append_nil]
      rfl
  case entered =>
    intro h l hs'
    rw [hs] at hs'
    cases hs'

/-- A run under a key with a loop enters it with each pass. -/
theorem run_greenSum_of_some {h : Handle} (hf : FitsSum n m) (harity : e.arity = 2)
    (hon : g.enabled = true) (ht : t.Straightens g e none ns)
    (hs : t.cache.loop? (e.site (greenKey n m)) = some h) :
    let p := greenSum e n m
    ∃ t' ns', p.run (t, {}) = .ok (.ok ()) (t', ⟨m.toNat, n * m.toNat⟩) ∧
      t'.Straightens g e none ns' ∧ Straightened e (greenKey n m) m.toNat t
        (p.moments (p.passes {}) .interpreting t {}) t' := by
  intro p
  obtain rfl := ht.settings
  let k := greenKey n m
  obtain ⟨a, ha, -⟩ := ht.cache.loop hs
  let fresh : Handle := ⟨t.cache.next⟩
  let stage : Nat → Straight := fun i => .looping h (a.entries + i)
  have hat : (stage 0).At t.settings e k fresh ns .interpreting t := by
    refine ⟨ht, ht.idle hs, hs, fun {h' l} he => ?_, nofun, rfl, nofun⟩
    cases he
    rw [ha]
    rfl
  obtain ⟨fs, t', hrun, hfs, ht', hhits, hloop, hentries, hlength, hbeside, hmodes⟩ :=
    run_greenSum_of_stage stage (fun _ => []) hf harity hon rfl (fun i => rfl) (fun i => rfl) hat
  rw [hfs]
  have hnotices := ht'.notices
  refine ⟨t', _, hrun, ht', hlength, ht.hits_lt _, ?below, ?aborted, ?compiled, ?entered,
    hbeside⟩
  case entered =>
    intro h' l hs' hl
    obtain rfl : h = h' := Option.some.inj (hs.symm.trans hs')
    rw [ha] at hl
    obtain rfl : a.entries = l := Option.some.inj hl
    refine ⟨hloop, hentries h _ rfl, ?_, fun f hf => ?_⟩
    · rw [hnotices, ht.notices, Straight.parting, List.append_nil, List.append_nil]
    · obtain ⟨i, hi⟩ := hmodes f hf
      exact hi h _ rfl
  all_goals
    intro hs'
    rw [hs] at hs'
    cases hs'

/-- Each run makes of the tracer what its leftovers and its loop decide. -/
theorem run_greenSum_straightened (hf : FitsSum n m) (harity : e.arity = 2)
    (hon : g.enabled = true) (ht : t.Straightens g e none ns) :
    let p := greenSum e n m
    ∃ t' ns', p.run (t, {}) = .ok (.ok ()) (t', ⟨m.toNat, n * m.toNat⟩) ∧
      t'.Straightens g e none ns' ∧ Straightened e (greenKey n m) m.toNat t
        (p.moments (p.passes {}) .interpreting t {}) t' := by
  cases hs : t.cache.loop? (e.site (greenKey n m)) with
  | none => exact run_greenSum_of_none hf harity hon ht hs
  | some h => exact run_greenSum_of_some hf harity hon ht hs

end

/-! ## Runs one after another -/

def behindSums (g : Settings) (e : EntryPoint) (runs : List (Int × Int)) : Tracer :=
  (runs.map fun r => Call.run (greenSum e r.1 r.2) {}).foldl (fun t c => c.perform t) (listening g)

theorem behindSums_concat (g : Settings) (e : EntryPoint) (runs : List (Int × Int))
    (r : Int × Int) :
    behindSums g e (runs ++ [r]) =
      (Call.run (greenSum e r.1 r.2) {}).perform (behindSums g e runs) := by
  simp only [behindSums, List.map_append, List.foldl_append, List.map_cons, List.map_nil,
    List.foldl_cons, List.foldl_nil]

theorem straightens_listening {g : Settings} (ht : 1 ≤ g.threshold) (e : EntryPoint) :
    (listening g).Straightens g e none [] where
  settings := rfl
  shapes _ hf := by cases hf
  quiet := quiet_listening g
  notices := rfl
  cache := Cache.Straight.empty e
  phase s := iff_of_false nofun nofun
  unannounced _ := rfl
  hits_lt s := ht
  idle hl := by cases hl

theorem straightens_behindSums {g : Settings} {e : EntryPoint} (harity : e.arity = 2)
    (hon : g.enabled = true) (ht : 1 ≤ g.threshold) {runs : List (Int × Int)}
    (hf : ∀ r ∈ runs, FitsSum r.1 r.2) : ∃ ns, (behindSums g e runs).Straightens g e none ns := by
  induction runs using List.reverseRecOn with
  | nil => exact ⟨[], straightens_listening ht e⟩
  | append_singleton runs r ih =>
      obtain ⟨ns, hns⟩ := ih fun r' hr' => hf r' (List.mem_append_left _ hr')
      obtain ⟨t', ns', hrun, ht', -⟩ := run_greenSum_straightened
        (hf r (List.mem_append_right _ (List.mem_singleton_self r))) harity hon hns
      refine ⟨ns', ?_⟩
      rw [behindSums_concat, Call.perform, hrun]
      exact ht'

/-- Runs of the sum one after another, under keys of one entry point: each ends with its sum behind
all its passes, and makes of the site of its key what the passes left over and the loop say. At any
time the loops that are live are those that were compiled, one for each key. -/
theorem run_greenSum (id : Nat) (g : Settings) (runs : List (Int × Int)) (n m : Int)
    (hon : g.enabled = true) (ht : 1 ≤ g.threshold)
    (hf : ∀ r ∈ runs ++ [(n, m)], FitsSum r.1 r.2) :
    let e := greenSumEntry id
    let p := greenSum e n m
    let t := behindSums g e runs
    let t' := behindSums g e (runs ++ [(n, m)])
    p.run (t, {}) = .ok (.ok ()) (t', ⟨m.toNat, n * m.toNat⟩) ∧
      Straightened e (greenKey n m) m.toNat t (p.moments (p.passes {}) .interpreting t {}) t' ∧
      ∃ ns, t'.monitor.notices = [ns] ∧ t'.cache.Straight e (compiledLoops ns) := by
  intro e p t t'
  obtain ⟨ns, hns⟩ := straightens_behindSums (e := e) rfl hon ht
    fun r hr => hf r (List.mem_append_left _ hr)
  obtain ⟨t₁, ns', hrun, ht₁, hstraight⟩ := run_greenSum_straightened
    (hf (n, m) (List.mem_append_right _ (List.mem_singleton_self _))) rfl hon hns
  obtain rfl : t' = t₁ := by
    rw [show t' = _ from behindSums_concat g e runs (n, m), Call.perform, hrun]
  exact ⟨hrun, hstraight, ns', ht₁.notices, ht₁.cache⟩

/-- With two passes left over, the second of two more passes enters the loop. -/
theorem run_greenSum_leftover :
    let e := greenSumEntry 0
    let t := behindSums .eager e [(5, 2), (8, 4)]
    let t' := behindSums .eager e ([(5, 2), (8, 4)] ++ [(5, 2)])
    (greenSum e 5 2).run (t, {}) = .ok (.ok ()) (t', ⟨2, 10⟩) ∧
      ∃ h, t'.cache.loop? (e.site (greenKey 5 2)) = some h ∧
        (t'.cache.get? h).map Artifact.entries = some 1 ∧
        t'.monitor.notices = t.monitor.notices.map (· ++ [straightLoop e (greenKey 5 2) h]) := by
  have hnone : (behindSums .eager (greenSumEntry 0) [(5, 2), (8, 4)]).cache.loop?
      ((greenSumEntry 0).site (greenKey 5 2)) = none := by decide +kernel
  have hneeded : (behindSums .eager (greenSumEntry 0) [(5, 2), (8, 4)]).settings.threshold -
      (behindSums .eager (greenSumEntry 0) [(5, 2), (8, 4)]).hits.findD
        ((greenSumEntry 0).site (greenKey 5 2)) 0 = 1 := by decide +kernel
  obtain ⟨hrun, hstraight, -⟩ :=
    run_greenSum 0 .eager [(5, 2), (8, 4)] 5 2 rfl (by decide) (by decide)
  have hcompiled := hstraight.compiled hnone
  rw [hneeded] at hcompiled
  exact ⟨hrun, (hcompiled (by decide)).2⟩

end Program

end HotLoop
