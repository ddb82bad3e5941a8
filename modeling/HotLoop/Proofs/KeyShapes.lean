import HotLoop.Proofs.Acceptance
import HotLoop.Proofs.Clients
import HotLoop.Proofs.History

/-!
# Shapes of keys through a history

A cache and a monitor check each key that they are given against the shape of its entry point, which
the first accepted key there has fixed. `Desk` has both, with the shapes that they share, and an
`Errand` is all that can be asked of them. Main statement: `first_key_fixes_shape`, of which keys
are accepted after any calls, what a refused one leaves behind, and which keys are stored.
-/

namespace HotLoop

open Code Lifecycle Trace

/-- The entry points of a program by their numbers. A clone of one is the same entry point. -/
structure Directory where
  entry : Nat → EntryPoint
  id_entry : ∀ n, (entry n).id = n

/-! ## One check -/

namespace Shapes

variable {s s' : Shapes} {e : EntryPoint} {k : Key}

/-- The kinds that are fixed are as many as the entry point has green variables. -/
def Suits (d : Directory) (s : Shapes) : Prop :=
  ∀ n kinds, s.kinds.find? n = some kinds → kinds.length = (d.entry n).arity

theorem Suits.check_eq_ok_iff {d : Directory} (hs : s.Suits d) {n : Nat} :
    s.check (d.entry n) k = .ok s' ↔ k.values.length = (d.entry n).arity ∧
      (s.kinds.find? n = some k.kinds ∧ s' = s ∨
        s.kinds.find? n = none ∧ s' = ⟨s.kinds.insert n k.kinds⟩) := by
  have hkinds : k.kinds.length = k.values.length := List.length_map _
  rw [check, d.id_entry]
  by_cases hl : k.values.length = (d.entry n).arity
  · rw [if_neg (not_not.2 hl), and_iff_right hl]
    cases hf : s.kinds.find? n with
    | none => simp [eq_comm]
    | some kinds =>
        have hm := mismatch?_eq_none_iff (e := d.entry n) (hkinds.trans hl) (hs n kinds hf)
        by_cases hk : k.kinds = kinds
        · simp [hm.2 hk, hk, eq_comm]
        · obtain ⟨green, hgreen⟩ := Option.ne_none_iff_exists'.1 (mt hm.1 hk)
          simp [hgreen, Ne.symm hk]
  · rw [if_pos hl]
    constructor
    · intro h
      cases h
    · exact fun h => absurd h.1 hl

theorem Suits.check_of_ok {d : Directory} (hs : s.Suits d) {n : Nat}
    (h : s.check (d.entry n) k = .ok s') :
    s'.Suits d ∧ ∀ m, s'.kinds.find? m = if m = n then some k.kinds else s.kinds.find? m := by
  obtain ⟨hl, ⟨hf, rfl⟩ | ⟨-, rfl⟩⟩ := hs.check_eq_ok_iff.1 h
  · refine ⟨hs, fun m => ?_⟩
    split_ifs with hm
    · rw [hm, hf]
    · rfl
  · have hfind : ∀ m, (s.kinds.insert n k.kinds).find? m =
        if m = n then some k.kinds else s.kinds.find? m :=
      fun m => FinMap.find?_insert s.kinds n m k.kinds
    refine ⟨fun m kinds hm => ?_, hfind⟩
    rw [hfind] at hm
    split_ifs at hm with hmn
    · rw [← Option.some.inj hm, hmn, ← hl]
      exact List.length_map _
    · exact hs m kinds hm

end Shapes

/-! ## Keys in the stores -/

def Lifecycle.Ledger.Holds (l : Ledger) (s : Site) : Prop :=
  (∃ p, l.phases.find? s = some p) ∨ ∃ h, l.loops.find? h = some s

theorem Lifecycle.Ledger.Takes.holds {l l' : Ledger} {a : Act} (h : l.Takes a l') {s : Site}
    (hs : l'.Holds s) : l.Holds s ∨ ∃ e k, a.key? = some (e, k) ∧ s = e.site k := by
  have hphases : ∀ {s₀ : Site} {p : Phase}, (∃ q, (l.phases.insert s₀ p).find? s = some q) →
      s = s₀ ∨ l.Holds s := by
    rintro s₀ p ⟨q, hq⟩
    rw [FinMap.find?_insert] at hq
    split_ifs at hq with hs₀
    · exact Or.inl hs₀
    · exact Or.inr (Or.inl ⟨q, hq⟩)
  have hloops : ∀ {h : Handle}, (∃ j, (l.loops.erase h).find? j = some s) → l.Holds s := by
    rintro h ⟨j, hj⟩
    rw [FinMap.find?_erase] at hj
    split_ifs at hj
    exact Or.inr ⟨j, hj⟩
  cases h with
  | begin e k hp =>
      rcases hs with hs | hs
      · exact (hphases hs).symm.imp_right fun h => ⟨e, k, rfl, h⟩
      · exact Or.inl (Or.inr hs)
  | abort cause e k hp =>
      rcases hs with hs | hs
      · exact (hphases hs).symm.imp_right fun h => ⟨e, k, rfl, h⟩
      · exact Or.inl (Or.inr hs)
  | abortBridge cause e k hp => exact Or.inl hs
  | loop e k h ops kind address length hp hn =>
      rcases hs with hs | ⟨j, hj⟩
      · exact (hphases hs).symm.imp_right fun h => ⟨e, k, rfl, h⟩
      · rw [FinMap.find?_insert] at hj
        split_ifs at hj
        · exact Or.inr ⟨e, k, rfl, (Option.some.inj hj).symm⟩
        · exact Or.inl (Or.inr ⟨j, hj⟩)
  | @bridge e parent b i ops address length s₀ p hs₀ he hp =>
      rcases hs with hs | hs
      · rcases hphases hs with rfl | h
        · exact Or.inl (Or.inr ⟨parent, hs₀⟩)
        · exact Or.inl h
      · exact Or.inl (Or.inr hs)
  | retireBridge hb => exact Or.inl hs
  | @retireLoop h s₀ hb hs₀ hp =>
      rcases hs with hs | hs
      · rcases hphases hs with rfl | h'
        · exact Or.inl (Or.inr ⟨h, hs₀⟩)
        · exact Or.inl h'
      · exact Or.inl (hloops hs)
  | retireReplaced hb hs₀ hp =>
      rcases hs with hs | hs
      · exact Or.inl (Or.inl hs)
      · exact Or.inl (hloops hs)

namespace Code.Cache

def Holds (c : Cache) (s : Site) : Prop :=
  (∃ h, c.loop? s = some h) ∨ ∃ h a, c.get? h = some a ∧ a.site = s

variable {c c' : Cache} {s s' : Site} {g : Guards} {ops : List Op}

theorem Sound.holds_iff (hc : c.Sound) : c.Holds s ↔ ∃ h a, c.get? h = some a ∧ a.site = s := by
  constructor
  · rintro (⟨h, hh⟩ | hs)
    · obtain ⟨a, ha, -, hs⟩ := (hc.loop_iff s h).1 hh
      exact ⟨h, a, ha, hs⟩
    · exact hs
  · exact Or.inr

theorem Without.holds {gone : List Handle} (hw : c.Without c' gone) (hc : c.Sound)
    (hs : c'.Holds s) : c.Holds s := by
  obtain ⟨h, a', ha', rfl⟩ := (hw.sound hc).holds_iff.1 hs
  obtain ⟨a, ha, hl⟩ := hw.live h a' ha'
  exact Or.inr ⟨h, a, ha, hl.site.symm⟩

theorem holds_use (hc : c.Sound) (u : Use) (hs : (u.perform c).1.Holds s) : c.Holds s := by
  cases u with
  | enter h =>
      simp only [Use.perform] at hs
      rcases enter_cases c h with ⟨-, he⟩ | ⟨a, -, -, he⟩ | ⟨a, v, -, -, he⟩ <;> rw [he] at hs
      · exact hs
      · obtain ⟨j, a', ha', rfl⟩ := (hc.entered h).holds_iff.1 hs
        obtain ⟨a, n, ha, rfl⟩ := of_get?_entered ha'
        exact Or.inr ⟨j, a, ha, rfl⟩
      · exact (without_retire hc h).holds hc hs
  | retire h => exact (without_retire hc h).holds hc hs
  | apply i => exact (without_retireAll i.dependents hc).holds hc hs

theorem holds_register (g : Guards) (hs : (c.register g).1.Holds s) : c.Holds s := hs

theorem holds_addLoop (hc : c.Sound) (hs : (c.addLoop s' g ops).1.Holds s) :
    c.Holds s ∨ s = s' := by
  have hsound := hc.addLoop s' g ops
  cases hg : g.firstStale? c.versions with
  | some v =>
      rw [addLoop_of_stale hg] at hs
      exact Or.inl (holds_register g hs)
  | none =>
      rw [addLoop_of_current hg] at hs hsound
      obtain ⟨j, a', ha', rfl⟩ := hsound.holds_iff.1 hs
      rw [get?_putLoop] at ha'
      split_ifs at ha'
      · rw [← Option.some.inj ha']
        exact Or.inr rfl
      · exact Or.inl ((without_vacate (hc.register g) s').1.holds (hc.register g)
          (Or.inr ⟨j, a', ha', rfl⟩))

theorem holds_addBridge (hc : c.Sound) {parent : Handle} {p : Artifact}
    (hp : c.get? parent = some p) (hk : p.kind = .loop) (i : Nat)
    (hs : (c.addBridge parent p.site i g ops).1.Holds s) : c.Holds s := by
  have hsound := hc.addBridge hp hk i g ops
  cases hg : g.firstStale? c.versions with
  | some v =>
      rw [addBridge_of_stale hg] at hs
      exact holds_register g hs
  | none =>
      rw [addBridge_of_current hg] at hs hsound
      obtain ⟨j, a', ha', rfl⟩ := hsound.holds_iff.1 hs
      rcases of_get?_putBridge ha' with ⟨rfl, rfl⟩ | ⟨-, a, ha, rfl⟩
      · exact Or.inr ⟨parent, p, hp, rfl⟩
      · exact Or.inr ⟨j, a, ha, like_attached.site.symm⟩

/-- The cache behind a write that revokes the version of a location and leaves the artifacts
alone. -/
def invalidated (c : Cache) (l : Location) : Cache :=
  match c.versions.invalidate? l with
  | some (t, _) => { c with versions := t }
  | none => c

theorem Sound.invalidated (hc : c.Sound) (l : Location) : (c.invalidated l).Sound := by
  unfold Cache.invalidated
  cases ht : c.versions.invalidate? l with
  | none => exact hc
  | some p => exact hc.invalidate ht

theorem holds_invalidated {l : Location} (hs : (c.invalidated l).Holds s) : c.Holds s := by
  unfold invalidated at hs
  cases ht : c.versions.invalidate? l with
  | none =>
      rw [ht] at hs
      exact hs
  | some p =>
      rw [ht] at hs
      exact hs

end Code.Cache

/-! ## Calls -/

structure Desk where
  shapes : Shapes := ∅
  cache : Cache := {}
  monitor : Monitor := {}

inductive Errand where
  /-- A key is made, or checked by itself. -/
  | check (n : Nat) (k : Key)
  | begin (n : Nat) (k : Key)
  | abort (cause : Abort) (n : Nat) (k : Key)
  | loop (n : Nat) (k : Key) (h : Handle) (ops : List Op) (kind : Kind) (address length : Nat)
  | bridge (n : Nat) (parent b : Handle) (i : Nat) (ops : List Op) (address length : Nat)
  | retired (h : Handle)
  | observe (o : Observer)
  | installLoop (n : Nat) (k : Key) (g : Guards) (ops : List Op)
  | installBridge (parent : Handle) (i : Nat) (g : Guards) (ops : List Op)
  | use (u : Use)
  | capture (l : Location)
  | invalidate (l : Location)

namespace Desk

def onMonitor (step : EStateM Fault (Shapes × Monitor) Unit) : EStateM Fault Desk Unit := fun w =>
  match step (w.shapes, w.monitor) with
  | .ok _ s => .ok () { w with shapes := s.1, monitor := s.2 }
  | .error f s => .error f { w with shapes := s.1, monitor := s.2 }

def onCache {α : Type} (step : EStateM Fault (Shapes × Cache) α) : EStateM Fault Desk Unit :=
  fun w =>
    match step (w.shapes, w.cache) with
    | .ok _ s => .ok () { w with shapes := s.1, cache := s.2 }
    | .error f s => .error f { w with shapes := s.1, cache := s.2 }

/-- The site is stored for an entry point, in the cache or in the ledger. -/
def Stores (w : Desk) (s : Site) : Prop := w.cache.Holds s ∨ w.monitor.ledger.Holds s

end Desk

namespace Errand

def run (d : Directory) : Errand → EStateM Fault Desk Unit
  | .check n k => Desk.onMonitor (Shapes.checkKey (d.entry n) k)
  | .begin n k => Desk.onMonitor (Monitor.take (.begin (d.entry n) k))
  | .abort cause n k => Desk.onMonitor (Monitor.take (.abort cause (d.entry n) k))
  | .loop n k h ops kind address length =>
    Desk.onMonitor (Monitor.take (.loop (d.entry n) k h ops kind address length))
  | .bridge n parent b i ops address length =>
    Desk.onMonitor (Monitor.take (.bridge (d.entry n) parent b i ops address length))
  | .retired h => modify fun w => { w with monitor := (w.monitor.retire h).1 }
  | .observe o => modify fun w => { w with monitor := w.monitor.addObserver o }
  | .installLoop n k g ops => Desk.onCache (Cache.installLoop (d.entry n) k g ops)
  | .installBridge parent i g ops => Desk.onCache (Target.install g ops (.bridge parent i))
  | .use u => modify fun w => { w with cache := (u.perform w.cache).1 }
  | .capture l =>
    modify fun w => { w with cache := { w.cache with versions := (w.cache.versions.read l).1 } }
  | .invalidate l => modify fun w => { w with cache := w.cache.invalidated l }

def key? : Errand → Option (Nat × Key)
  | .check n k => some (n, k)
  | .begin n k => some (n, k)
  | .abort _ n k => some (n, k)
  | .loop n k _ _ _ _ _ => some (n, k)
  | .installLoop n k _ _ => some (n, k)
  | _ => none

/-- What the call makes of the desk, also when it ends with a fault. -/
def perform (d : Directory) (w : Desk) (c : Errand) : Desk :=
  match c.run d w with
  | .ok _ w => w
  | .error _ w => w

def refused (d : Directory) (w : Desk) (c : Errand) : Bool :=
  match c.run d w with
  | .ok _ _ => false
  | .error f _ => f.ofShape

def check? (d : Directory) (c : Errand) (s : Shapes) : Except Fault Shapes :=
  match c.key? with
  | some (n, k) => s.check (d.entry n) k
  | none => .ok s

end Errand

namespace Lifecycle

theorem Report.not_ofShape_of_step {r : Report} {l : Ledger} {f : Fault} (h : r.step l = .error f) :
    f.ofShape = false := by
  cases r with
  | begin e k =>
      simp only [step, Ledger.begin] at h
      split_ifs at h
      cases h
      rfl
  | abort cause e k =>
      simp only [step, Ledger.abort] at h
      split at h <;> cases h <;> rfl
  | loop e k j ops kind address length =>
      simp only [step, Ledger.announceLoop] at h
      split_ifs at h <;> cases h <;> rfl
  | bridge e p b i ops address length =>
      simp only [step, Ledger.announceBridge] at h
      split at h
      · cases h
        rfl
      · split_ifs at h
        · cases h
          rfl
        · rename_i s _ _
          cases hp : Ledger.bridgedPhase b p (l.phase s) with
          | ok q =>
              rw [hp] at h
              cases h
          | error f' =>
              rw [hp] at h
              cases h
              rcases Ledger.fault_of_bridgedPhase hp with rfl | rfl <;> rfl

def Monitor.Adds (l : Ledger) (r : Report) (m : Monitor) : Prop :=
  ∀ s, m.ledger.Holds s → l.Holds s ∨ ∃ e k, (Act.report r).key? = some (e, k) ∧ s = e.site k

theorem Monitor.adds_of_eq {l : Ledger} {m : Monitor} (r : Report) (h : m.ledger = l) :
    Adds l r m := by
  intro s hs
  rw [h] at hs
  exact Or.inl hs

theorem Monitor.tell_ends (n : Option Notice) (s : Shapes × Monitor) :
    Ends (fun _ s' => s'.1 = s.1 ∧ s'.2.ledger = s.2.ledger)
      (fun f s' => f.ofShape = false ∧ s'.1 = s.1 ∧ s'.2.ledger = s.2.ledger) (tell n s) := by
  cases n with
  | none => exact ⟨rfl, rfl⟩
  | some n =>
      simp only [tell, notify]
      split_ifs
      · exact ⟨rfl, rfl⟩
      · exact ⟨rfl, rfl, rfl⟩

/-- A report is refused for its key, or else the check of the key decides about the shapes. -/
theorem Monitor.take_cases (r : Report) (s : Shapes × Monitor) :
    (∃ f, r.check s.1 = .error f ∧ take r s = .error f s) ∨
      ∃ shapes, r.check s.1 = .ok shapes ∧
        Ends (fun _ s' => s'.1 = shapes ∧ Adds s.2.ledger r s'.2)
          (fun f s' => f.ofShape = false ∧ s'.1 = shapes ∧ Adds s.2.ledger r s'.2) (take r s) := by
  rw [take_eq]
  cases hc : r.check s.1 with
  | error f => exact Or.inl ⟨f, rfl, rfl⟩
  | ok shapes =>
      refine Or.inr ⟨shapes, rfl, ?_⟩
      dsimp only
      cases hstep : r.step s.2.ledger with
      | error f => exact ⟨Report.not_ofShape_of_step hstep, rfl, adds_of_eq r rfl⟩
      | ok l =>
          have hadds : ∀ m : Monitor, m.ledger = l → Adds s.2.ledger r m := by
            intro m hm site hs
            rw [hm] at hs
            exact (Ledger.takes_report hstep).holds hs
          exact (tell_ends r.notice? (shapes, { s.2 with ledger := l })).imp
            (fun _ s' h => ⟨h.1, hadds s'.2 h.2⟩) fun _ s' h => ⟨h.1, h.2.1, hadds s'.2 h.2.2⟩

end Lifecycle

/-- What a call that is not refused does: the check of its key decides about the shapes, and the
site of its key is the only one that may be stored newly. -/
structure Desk.Goes (w : Desk) (c : Errand) (shapes : Shapes) (w' : Desk) : Prop where
  shapes : w'.shapes = shapes
  sound : w'.cache.Sound
  stores : ∀ s, w'.Stores s → w.Stores s ∨ c.key? = some (s.entry, s.key)

namespace Errand

variable {d : Directory} {w : Desk} {c : Errand} {n : Nat} {k : Key}

theorem check?_of_key (hk : c.key? = some (n, k)) (s : Shapes) :
    c.check? d s = s.check (d.entry n) k := by
  unfold check?
  rw [hk]

theorem check?_of_none (hk : c.key? = none) (s : Shapes) : c.check? d s = .ok s := by
  unfold check?
  rw [hk]

def Judged (d : Directory) (w : Desk) (c : Errand) : Prop :=
  (∃ f, c.check? d w.shapes = .error f ∧ c.run d w = .error f w) ∨
    ∃ shapes, c.check? d w.shapes = .ok shapes ∧
      Ends (fun _ => w.Goes c shapes) (fun f w' => f.ofShape = false ∧ w.Goes c shapes w')
        (c.run d w)

theorem judged_report {r : Report} (hw : w.cache.Sound)
    (hrun : c.run d = Desk.onMonitor (Monitor.take r))
    (hcheck : c.check? d w.shapes = r.check w.shapes)
    (hkey : ∀ e k, (Act.report r).key? = some (e, k) → c.key? = some (e.id, k)) : c.Judged d w := by
  unfold Judged
  rw [hrun, hcheck]
  have hgoes : ∀ {shapes : Shapes} {s : Shapes × Monitor}, s.1 = shapes →
      s.2.Adds w.monitor.ledger r → w.Goes c shapes { w with shapes := s.1, monitor := s.2 } := by
    intro shapes s hs hadds
    refine ⟨hs, hw, fun site hsite => ?_⟩
    rcases hsite with h | h
    · exact Or.inl (Or.inl h)
    · rcases hadds site h with h | ⟨e, k, hk, rfl⟩
      · exact Or.inl (Or.inr h)
      · exact Or.inr (hkey e k hk)
  rcases Monitor.take_cases r (w.shapes, w.monitor) with ⟨f, hf, ht⟩ | ⟨shapes, hs, ht⟩
  · exact Or.inl ⟨f, hf, by rw [Desk.onMonitor, ht]⟩
  · refine Or.inr ⟨shapes, hs, ?_⟩
    unfold Desk.onMonitor
    cases htake : Monitor.take r (w.shapes, w.monitor) with
    | ok u s =>
        rw [htake] at ht
        exact hgoes ht.1 ht.2
    | error f s =>
        rw [htake] at ht
        exact ⟨ht.1, hgoes ht.2.1 ht.2.2⟩

/-- A call without a key that leaves the shapes alone and brings in no site. -/
theorem judged_of_ok {w' : Desk} (hkey : c.key? = none) (hrun : c.run d w = .ok () w')
    (hgoes : w'.shapes = w.shapes ∧ w'.cache.Sound ∧ ∀ s, w'.Stores s → w.Stores s) :
    c.Judged d w := by
  refine Or.inr ⟨w.shapes, check?_of_none hkey w.shapes, ?_⟩
  rw [hrun]
  exact ⟨hgoes.1, hgoes.2.1, fun s hs => Or.inl (hgoes.2.2 s hs)⟩

/-- A call without a key that may change the cache. -/
theorem judged_of_cache {c' : Cache} (hkey : c.key? = none)
    (hrun : c.run d w = .ok () { w with cache := c' }) (hsound : c'.Sound)
    (hholds : ∀ s, c'.Holds s → w.cache.Holds s) : c.Judged d w :=
  judged_of_ok hkey hrun ⟨rfl, hsound, fun s hs => hs.imp_left (hholds s)⟩

theorem judged_check (hw : w.cache.Sound) (n : Nat) (k : Key) : (check n k).Judged d w := by
  cases hc : w.shapes.check (d.entry n) k with
  | error f => exact Or.inl ⟨f, hc, by simp only [run, Desk.onMonitor, Shapes.checkKey, hc]⟩
  | ok shapes =>
      refine Or.inr ⟨shapes, hc, ?_⟩
      simp only [run, Desk.onMonitor, Shapes.checkKey, hc]
      exact ⟨rfl, hw, fun s hs => Or.inl hs⟩

theorem judged_retired (hw : w.cache.Sound) (h : Handle) : (retired h).Judged d w := by
  refine judged_of_ok rfl rfl ⟨rfl, hw, fun s hs => hs.imp_right fun hl => ?_⟩
  simp only [Monitor.retire] at hl
  cases hr : w.monitor.ledger.retire? h with
  | none =>
      rw [hr] at hl
      exact hl
  | some l =>
      rw [hr] at hl
      rcases (Ledger.takes_retire hr).holds hl with hl | ⟨e, k, ⟨⟩, -⟩
      exact hl

theorem judged_installLoop (hw : w.cache.Sound) (n : Nat) (k : Key) (g : Guards) (ops : List Op) :
    (installLoop n k g ops).Judged d w := by
  have heq : Cache.installLoop (d.entry n) k g ops (w.shapes, w.cache) = _ :=
    Cache.installLoop_eq (d.entry n) k w.shapes
  cases hc : w.shapes.check (d.entry n) k with
  | error f =>
      rw [hc] at heq
      exact Or.inl ⟨f, hc, by simp only [run, Desk.onCache, heq]⟩
  | ok shapes =>
      rw [hc] at heq
      refine Or.inr ⟨shapes, hc, ?_⟩
      simp only [run, Desk.onCache, heq]
      refine ⟨rfl, hw.addLoop _ g ops, fun s hs => ?_⟩
      rcases hs with hs | hs
      · rcases Cache.holds_addLoop hw hs with hs | rfl
        · exact Or.inl (Or.inl hs)
        · exact Or.inr (congrArg (fun m => some (m, k)) (d.id_entry n).symm)
      · exact Or.inl (Or.inr hs)

theorem judged_installBridge (hw : w.cache.Sound) (parent : Handle) (i : Nat) (g : Guards)
    (ops : List Op) : (installBridge parent i g ops).Judged d w := by
  by_cases hp : ∃ p, w.cache.get? parent = some p ∧ p.IsLoop
  · obtain ⟨p, hp, hk⟩ := hp
    have hrun : (installBridge parent i g ops).run d w =
        .ok () { w with cache := (w.cache.addBridge parent p.site i g ops).1 } := by
      simp only [run, Desk.onCache, Target.install, Cache.installBridge, hp, if_pos hk]
    exact judged_of_cache rfl hrun (hw.addBridge hp hk i g ops)
      fun s => Cache.holds_addBridge hw hp hk i
  · have hinstall : Cache.installBridge parent i g ops w.cache =
        .error (.notLiveLoop parent) w.cache := by
      unfold Cache.installBridge
      cases hg : w.cache.get? parent with
      | none => rfl
      | some p => exact if_neg fun hk => hp ⟨p, hg, hk⟩
    refine Or.inr ⟨w.shapes, rfl, ?_⟩
    simp only [run, Desk.onCache, Target.install, hinstall]
    exact ⟨rfl, rfl, hw, fun s hs => Or.inl hs⟩

theorem judged (hw : w.cache.Sound) (c : Errand) : c.Judged d w := by
  -- Reports are about the key of the errand, with the number of its entry point.
  have hkey : ∀ (n : Nat) (k : Key) (e : EntryPoint) (k' : Key),
      some (d.entry n, k) = some (e, k') → some (n, k) = some (e.id, k') := by
    rintro n k _ _ ⟨⟩
    rw [d.id_entry]
  cases c with
  | check n k => exact judged_check hw n k
  | begin n k => exact judged_report hw rfl rfl (hkey n k)
  | abort cause n k => exact judged_report hw rfl rfl (hkey n k)
  | loop n k h ops kind address length => exact judged_report hw rfl rfl (hkey n k)
  | bridge n parent b i ops address length => exact judged_report hw rfl rfl nofun
  | retired h => exact judged_retired hw h
  | observe o => exact judged_of_ok rfl rfl ⟨rfl, hw, fun s hs => hs⟩
  | installLoop n k g ops => exact judged_installLoop hw n k g ops
  | installBridge parent i g ops => exact judged_installBridge hw parent i g ops
  | use u =>
      exact judged_of_cache rfl rfl (Cache.drops_use hw u).sound fun s => Cache.holds_use hw u
  | capture l => exact judged_of_cache rfl rfl (hw.read l) fun s hs => hs
  | invalidate l =>
      exact judged_of_cache rfl rfl (hw.invalidated l) fun s => Cache.holds_invalidated

def accepted? (d : Directory) (w : Desk) (c : Errand) : Option (Nat × Key) :=
  if c.refused d w then none else c.key?

def accepted (d : Directory) : Desk → List Errand → List (Nat × Key)
  | _, [] => []
  | w, c :: cs => (c.accepted? d w).toList ++ accepted d (c.perform d w) cs

theorem refused_eq_true_iff (hw : w.cache.Sound) :
    c.refused d w = true ↔ ∃ f, c.check? d w.shapes = .error f ∧ c.run d w = .error f w := by
  rcases judged (d := d) hw c with ⟨f, hc, hrun⟩ | ⟨shapes, hc, hends⟩
  · have hf : f.ofShape = true := by
      cases hk : c.key? with
      | none =>
          rw [check?_of_none hk] at hc
          cases hc
      | some p =>
          rw [check?_of_key hk] at hc
          exact Shapes.ofShape_of_check hc
    refine iff_of_true ?_ ⟨f, hc, hrun⟩
    unfold refused
    rw [hrun]
    exact hf
  · refine iff_of_false ?_ ?_
    · unfold refused
      cases hrun : c.run d w with
      | ok u w' => nofun
      | error f w' =>
          rw [hrun] at hends
          exact ne_true_of_eq_false hends.1
    · rintro ⟨f, hf, -⟩
      rw [hc] at hf
      cases hf

theorem perform_of_refused (hw : w.cache.Sound) (h : c.refused d w = true) : c.perform d w = w := by
  obtain ⟨f, -, hrun⟩ := (refused_eq_true_iff hw).1 h
  unfold perform
  rw [hrun]

theorem goes_of_not_refused (hw : w.cache.Sound) (h : c.refused d w = false) :
    ∃ shapes, c.check? d w.shapes = .ok shapes ∧ w.Goes c shapes (c.perform d w) := by
  rcases judged (d := d) hw c with hf | ⟨shapes, hc, hends⟩
  · rw [(refused_eq_true_iff hw).2 hf] at h
    cases h
  · refine ⟨shapes, hc, ?_⟩
    unfold perform
    cases hrun : c.run d w with
    | ok u w' =>
        rw [hrun] at hends
        exact hends
    | error f w' =>
        rw [hrun] at hends
        exact hends.2

end Errand

/-! ## Histories of calls -/

def firstAt (ks : List (Nat × Key)) (n : Nat) : Option Key :=
  (ks.find? fun p => p.1 = n).map Prod.snd

theorem firstAt_concat (ks : List (Nat × Key)) (m n : Nat) (k : Key) :
    firstAt (ks ++ [(m, k)]) n = (firstAt ks n).or (if n = m then some k else none) := by
  unfold firstAt
  rw [List.find?_append, List.find?_singleton]
  by_cases hm : m = n
  · cases ks.find? fun p => p.1 = n <;> simp [hm]
  · cases ks.find? fun p => p.1 = n <;> simp [hm, Ne.symm hm]

namespace Desk

def new (table : Nat) (os : List Observer) : Desk where
  cache := { versions := { table := table } }
  monitor := { observers := os }

def after (d : Directory) (w : Desk) (cs : List Errand) : Desk := cs.foldl (Errand.perform d) w

/-- The keys `ks` were accepted, and nothing else is known of them and stored than follows. -/
structure Follows (d : Directory) (ks : List (Nat × Key)) (w : Desk) : Prop where
  sound : w.cache.Sound
  suits : w.shapes.Suits d
  first : ∀ n, w.shapes.kinds.find? n = (firstAt ks n).map Key.kinds
  stored : ∀ s, w.Stores s → w.shapes.kinds.find? s.entry = some s.key.kinds

variable {d : Directory} {ks : List (Nat × Key)} {w : Desk} {c : Errand}

theorem follows_new (d : Directory) (table : Nat) (os : List Observer) :
    (new table os).Follows d [] where
  sound := Cache.sound_empty table
  suits := nofun
  first := fun n => rfl
  stored := by
    rintro s ((⟨h, hh⟩ | ⟨h, a, ha, -⟩) | ⟨p, hp⟩ | ⟨h, hh⟩)
    · cases hh
    · cases ha
    · cases hp
    · cases hh

/-- What the check of a key asks for. -/
theorem Follows.refused_eq_false_iff (h : w.Follows d ks) {n : Nat} {k : Key}
    (hk : c.key? = some (n, k)) :
    c.refused d w = false ↔ k.values.length = (d.entry n).arity ∧
      ∀ k₀, firstAt ks n = some k₀ → k.kinds = k₀.kinds := by
  have hcheck := Errand.check?_of_key (d := d) hk w.shapes
  have hfirst := h.first n
  constructor
  · intro hr
    obtain ⟨shapes, hc, -⟩ := Errand.goes_of_not_refused h.sound hr
    obtain ⟨hl, hkinds⟩ := h.suits.check_eq_ok_iff.1 (hcheck ▸ hc)
    refine ⟨hl, fun k₀ hk₀ => ?_⟩
    rw [hk₀] at hfirst
    rcases hkinds with ⟨hf, -⟩ | ⟨hf, -⟩
    · exact Option.some.inj (hf.symm.trans hfirst)
    · cases hf.symm.trans hfirst
  · rintro ⟨hl, hkinds⟩
    have hok : ∃ shapes, w.shapes.check (d.entry n) k = .ok shapes := by
      cases hk₀ : firstAt ks n with
      | none =>
          rw [hk₀] at hfirst
          exact ⟨_, h.suits.check_eq_ok_iff.2 ⟨hl, Or.inr ⟨hfirst, rfl⟩⟩⟩
      | some k₀ =>
          rw [hk₀] at hfirst
          have hf : w.shapes.kinds.find? n = some k.kinds :=
            hfirst.trans (congrArg some (hkinds k₀ hk₀).symm)
          exact ⟨_, h.suits.check_eq_ok_iff.2 ⟨hl, Or.inl ⟨hf, rfl⟩⟩⟩
    apply Bool.eq_false_iff.2
    intro hr
    obtain ⟨shapes, hs⟩ := hok
    obtain ⟨f, hf, -⟩ := (Errand.refused_eq_true_iff h.sound).1 hr
    rw [hcheck, hs] at hf
    cases hf

theorem Follows.keyless (h : w.Follows d ks) (hk : c.key? = none) {w' : Desk}
    (hgoes : w.Goes c w.shapes w') : w'.Follows d ks := by
  have hshapes := hgoes.shapes
  refine ⟨hgoes.sound, hshapes ▸ h.suits, fun n => hshapes ▸ h.first n, fun s hs => ?_⟩
  rw [hshapes]
  rcases hgoes.stores s hs with hs | hs
  · exact h.stored s hs
  · rw [hk] at hs
    cases hs

/-- An accepted key has the kinds of the first one, or is the first one itself. -/
theorem Follows.keyed (h : w.Follows d ks) {n : Nat} {k : Key} (hk : c.key? = some (n, k))
    (hkinds : ∀ k₀, firstAt ks n = some k₀ → k.kinds = k₀.kinds) {w' : Desk}
    (hcheck : w.shapes.check (d.entry n) k = .ok w'.shapes) (hgoes : w.Goes c w'.shapes w') :
    w'.Follows d (ks ++ [(n, k)]) := by
  obtain ⟨hsuits, hfind⟩ := h.suits.check_of_ok hcheck
  constructor
  case sound => exact hgoes.sound
  case suits => exact hsuits
  case first =>
    intro m
    rw [hfind, firstAt_concat, h.first m]
    by_cases hm : m = n
    · subst hm
      cases hk₀ : firstAt ks m with
      | none => simp
      | some k₀ => simp [hkinds k₀ hk₀]
    · simp [hm]
  case stored =>
    intro s hs
    rw [hfind]
    rcases hgoes.stores s hs with hs | hs
    · have hstored := h.stored s hs
      split_ifs with hn
      · subst hn
        obtain ⟨k₀, hk₀, hkk₀⟩ :=
          Option.map_eq_some_iff.1 ((h.first s.entry).symm.trans hstored)
        rw [hkinds k₀ hk₀, hkk₀]
      · exact hstored
    · rw [hk] at hs
      obtain ⟨rfl, rfl⟩ := Prod.mk.inj (Option.some.inj hs)
      exact if_pos rfl

theorem Follows.perform (h : w.Follows d ks) (c : Errand) :
    (c.perform d w).Follows d (ks ++ (c.accepted? d w).toList) := by
  cases hr : c.refused d w with
  | true =>
      have hnone : c.accepted? d w = none := if_pos hr
      rw [Errand.perform_of_refused h.sound hr, hnone, Option.toList_none, List.append_nil]
      exact h
  | false =>
      have hkey : c.accepted? d w = c.key? := if_neg (Bool.eq_false_iff.1 hr)
      obtain ⟨shapes, hc, hgoes⟩ := Errand.goes_of_not_refused h.sound hr
      rw [hkey]
      cases hk : c.key? with
      | none =>
          obtain rfl : w.shapes = shapes :=
            Except.ok.inj ((Errand.check?_of_none hk w.shapes).symm.trans hc)
          rw [Option.toList_none, List.append_nil]
          exact h.keyless hk hgoes
      | some p =>
          obtain rfl := hgoes.shapes
          have hkinds := ((h.refused_eq_false_iff hk).1 hr).2
          exact h.keyed hk hkinds ((Errand.check?_of_key hk w.shapes).symm.trans hc) hgoes

theorem Follows.after (h : w.Follows d ks) (cs : List Errand) :
    (w.after d cs).Follows d (ks ++ Errand.accepted d w cs) := by
  induction cs generalizing w ks with
  | nil =>
      rw [Errand.accepted, List.append_nil]
      exact h
  | cons c cs ih =>
      rw [Errand.accepted, ← List.append_assoc]
      exact ih (h.perform c)

end Desk

theorem Errand.accepted_append (d : Directory) (w : Desk) (cs cs' : List Errand) :
    accepted d w (cs ++ cs') = accepted d w cs ++ accepted d (w.after d cs) cs' := by
  induction cs generalizing w with
  | nil => rfl
  | cons c cs ih =>
      rw [List.cons_append, accepted, accepted, ih, List.append_assoc]
      rfl

/-- After any calls: a key is accepted just if it has one value for each green variable and the
kinds of the first key that was accepted for the entry point; a call whose key is refused changes
nothing, and what comes later goes as without it; and all keys that are stored for an entry point
have the length and the kinds of that first key. -/
theorem first_key_fixes_shape (d : Directory) (table : Nat) (os : List Observer)
    (cs : List Errand) :
    let start := Desk.new table os
    let w := start.after d cs
    let first := firstAt (Errand.accepted d start cs)
    (∀ (c : Errand) (n : Nat) (k : Key), c.key? = some (n, k) →
      (c.refused d w = false ↔ k.values.length = (d.entry n).arity ∧
        ∀ k₀, first n = some k₀ → k.kinds = k₀.kinds)) ∧
    (∀ c : Errand, c.refused d w = true → c.perform d w = w ∧ ∀ later,
      start.after d (cs ++ c :: later) = start.after d (cs ++ later) ∧
        Errand.accepted d start (cs ++ c :: later) = Errand.accepted d start (cs ++ later)) ∧
    (∀ s, w.Stores s → s.key.values.length = (d.entry s.entry).arity ∧
      ∃ k₀, first s.entry = some k₀ ∧ s.key.kinds = k₀.kinds) ∧
    ∀ s s', w.Stores s → w.Stores s' → s.entry = s'.entry →
      s.key.values.length = s'.key.values.length ∧ s.key.kinds = s'.key.kinds := by
  intro start w first
  have h : w.Follows d (Errand.accepted d start cs) := (Desk.follows_new d table os).after cs
  have hlen : ∀ k : Key, k.kinds.length = k.values.length := fun k => List.length_map _
  have hstored : ∀ s, w.Stores s → s.key.values.length = (d.entry s.entry).arity ∧
      ∃ k₀, first s.entry = some k₀ ∧ s.key.kinds = k₀.kinds := by
    intro s hs
    have hkinds := h.stored s hs
    obtain ⟨k₀, hk₀, hkk₀⟩ := Option.map_eq_some_iff.1 ((h.first s.entry).symm.trans hkinds)
    exact ⟨(hlen s.key).symm.trans (h.suits s.entry _ hkinds), k₀, hk₀, hkk₀.symm⟩
  refine ⟨fun c n k hk => h.refused_eq_false_iff hk, fun c hr => ?_, hstored, ?_⟩
  · have hperform := Errand.perform_of_refused h.sound hr
    have hnone : c.accepted? d w = none := if_pos hr
    refine ⟨hperform, fun later => ⟨?_, ?_⟩⟩
    · simp only [Desk.after, List.foldl_append, List.foldl_cons]
      exact congrArg (List.foldl (Errand.perform d) · later) hperform
    · rw [Errand.accepted_append, Errand.accepted_append, Errand.accepted]
      change _ ++ ((c.accepted? d w).toList ++ Errand.accepted d (c.perform d w) later) = _
      rw [hnone, hperform]
      rfl
  · intro s s' hs hs' he
    obtain ⟨hl, k₀, hk₀, hk⟩ := hstored s hs
    obtain ⟨hl', k₀', hk₀', hk'⟩ := hstored s' hs'
    rw [← he] at hl' hk₀'
    obtain rfl := Option.some.inj (hk₀.symm.trans hk₀')
    exact ⟨hl.trans hl'.symm, hk.trans hk'.symm⟩

end HotLoop
