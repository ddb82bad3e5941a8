import HotLoop.Proofs.Reports

/-!
# What a monitor is told

A monitor is told of reports and of retired artifacts, in any order, and some of what it is told it
rejects. With keys of the right shape, what becomes of its ledger is a matter of the ledger alone:
observers that fail do not undo a step. `Takes` has all that a ledger can do.
-/

namespace HotLoop.Lifecycle

open Trace

inductive Act where
  | report (r : Report)
  | retire (h : Handle)

namespace Act

def step : Act → Ledger → Option Ledger
  | .report r, l => (r.step l).toOption
  | .retire h, l => l.retire? h

/-- What the act makes of a monitor, whether it is accepted, rejected, or an observer fails. -/
def perform : Act → Shapes × Monitor → Shapes × Monitor
  | .report r, s =>
    match Monitor.take r s with
    | .ok _ s => s
    | .error _ s => s
  | .retire h, s => (s.1, (s.2.retire h).1)

def key? : Act → Option (EntryPoint × Key)
  | .report (.begin e k) => some (e, k)
  | .report (.abort _ e k) => some (e, k)
  | .report (.loop e k _ _ _ _ _) => some (e, k)
  | _ => none

def performAll (as : List Act) (s : Shapes × Monitor) : Shapes × Monitor :=
  as.foldl (fun s a => a.perform s) s

/-- The key of the act has one value for each green variable of its entry point, of these kinds. -/
def Fits (kinds : Nat → List Green.Kind) (a : Act) : Prop :=
  ∀ e k, a.key? = some (e, k) → k.values.length = e.arity ∧ k.kinds = kinds e.id

end Act

def Fixes (kinds : Nat → List Green.Kind) (s : Shapes) : Prop := ∀ e, s.Allows e (kinds e.id)

def Ledger.perform (l : Ledger) (a : Act) : Ledger := (a.step l).getD l

/-! ## Monitors -/

section

variable {kinds : Nat → List Green.Kind} {s : Shapes × Monitor} {e : EntryPoint} {k : Key}

theorem Fixes.check (hs : Fixes kinds s.1) (hl : k.values.length = e.arity)
    (hk : k.kinds = kinds e.id) : ∃ s', s.1.check e k = .ok s' ∧ Fixes kinds s' := by
  obtain ⟨s', hcheck, -⟩ := (hs e).check hl hk
  refine ⟨s', hcheck, fun e' => ?_⟩
  rcases Shapes.check_eq_ok hcheck with ⟨-, rfl⟩ | ⟨-, -, rfl⟩
  · exact hs e'
  · intro fixed hfixed
    have hfind := (FinMap.find?_insert s.1.kinds e.id e'.id k.kinds).symm.trans hfixed
    split_ifs at hfind with he
    · rw [he, ← hk]
      exact (Option.some.inj hfind).symm
    · exact hs e' fixed hfind

def Monitor.Keeps (s : Shapes × Monitor) (l : Ledger) (s' : Shapes × Monitor) : Prop :=
  s'.1 = s.1 ∧ s'.2.ledger = l

theorem Monitor.keeps_enter (step : Ledger → Except Fault Ledger) (s : Shapes × Monitor) :
    Ends (fun _ => Keeps s ((step s.2.ledger).toOption.getD s.2.ledger))
      (fun _ => Keeps s ((step s.2.ledger).toOption.getD s.2.ledger)) (enter step s) := by
  unfold enter
  cases step s.2.ledger with
  | error f => exact ⟨rfl, rfl⟩
  | ok l => exact ⟨rfl, rfl⟩

/-- Observers change nothing in what was entered. -/
theorem Monitor.keeps_enter_notify (step : Ledger → Except Fault Ledger) (n : Notice)
    (s : Shapes × Monitor) :
    Ends (fun _ => Keeps s ((step s.2.ledger).toOption.getD s.2.ledger))
      (fun _ => Keeps s ((step s.2.ledger).toOption.getD s.2.ledger))
      ((enter step >>= fun _ => notify n) s) := by
  refine Ends.bind ((keeps_enter step s).imp (fun _ s₁ h => ?_) fun _ _ h => h)
  have htook : ∀ s', Took s₁ s₁.2.ledger s' →
      Keeps s ((step s.2.ledger).toOption.getD s.2.ledger) s' :=
    fun s' ht => ⟨ht.1.trans h.1, ht.2.1.trans h.2⟩
  exact (notify_ends n s₁).imp (fun _ s' ht => htook s' ht) fun _ s' ht => htook s' ht.2.2

theorem Monitor.keeps_checked {r : Report} {next : EStateM Fault (Shapes × Monitor) Unit}
    (hs : Fixes kinds s.1) (hl : k.values.length = e.arity) (hk : k.kinds = kinds e.id)
    (htake : take r = (Shapes.checkKey e k >>= fun _ => next))
    (hnext : ∀ s : Shapes × Monitor, Ends
      (fun _ => Keeps s ((r.step s.2.ledger).toOption.getD s.2.ledger))
      (fun _ => Keeps s ((r.step s.2.ledger).toOption.getD s.2.ledger)) (next s)) :
    ∃ shapes, Fixes kinds shapes ∧ Ends
      (fun _ => Keeps (shapes, s.2) ((r.step s.2.ledger).toOption.getD s.2.ledger))
      (fun _ => Keeps (shapes, s.2) ((r.step s.2.ledger).toOption.getD s.2.ledger)) (take r s) := by
  obtain ⟨shapes, hcheck, hfix⟩ := hs.check hl hk
  refine ⟨shapes, hfix, ?_⟩
  rw [htake]
  apply Ends.bind
  unfold Shapes.checkKey
  rw [hcheck]
  exact hnext (shapes, s.2)

theorem Monitor.keeps_take (r : Report) (hs : Fixes kinds s.1) (hr : (Act.report r).Fits kinds) :
    ∃ shapes, Fixes kinds shapes ∧ Ends
      (fun _ => Keeps (shapes, s.2) ((r.step s.2.ledger).toOption.getD s.2.ledger))
      (fun _ => Keeps (shapes, s.2) ((r.step s.2.ledger).toOption.getD s.2.ledger)) (take r s) := by
  cases r with
  | begin e k =>
      obtain ⟨hl, hk⟩ := hr e k rfl
      exact keeps_checked hs hl hk rfl fun s => keeps_enter (fun l => l.begin e k) s
  | abort cause e k =>
      obtain ⟨hl, hk⟩ := hr e k rfl
      exact keeps_checked hs hl hk rfl fun s => keeps_enter_notify (fun l => l.abort cause e k) _ s
  | loop e k h ops kind address length =>
      obtain ⟨hl, hk⟩ := hr e k rfl
      exact keeps_checked hs hl hk rfl fun s => keeps_enter_notify (fun l => l.announceLoop e k h) _ s
  | bridge e parent b i ops address length =>
      exact ⟨s.1, hs, keeps_enter_notify (fun l => l.announceBridge e parent b) _ s⟩

/-- With keys of the right shape, the ledger decides. -/
theorem Act.ledger_perform (a : Act) (hs : Fixes kinds s.1) (ha : a.Fits kinds) :
    Fixes kinds (a.perform s).1 ∧ (a.perform s).2.ledger = s.2.ledger.perform a := by
  cases a with
  | report r =>
      obtain ⟨shapes, hfix, hend⟩ := Monitor.keeps_take r hs ha
      simp only [perform]
      cases ht : Monitor.take r s with
      | ok _ s' =>
          rw [ht] at hend
          exact ⟨hend.1 ▸ hfix, hend.2⟩
      | error f s' =>
          rw [ht] at hend
          exact ⟨hend.1 ▸ hfix, hend.2⟩
  | retire h => exact ⟨hs, congrArg Monitor.ledger (s.2.fst_retire h)⟩

theorem Act.ledger_performAll (hs : Fixes kinds s.1) {as : List Act} (ha : ∀ a ∈ as, a.Fits kinds) :
    (performAll as s).2.ledger = as.foldl Ledger.perform s.2.ledger := by
  induction as generalizing s with
  | nil => rfl
  | cons a as ih =>
      obtain ⟨hfirst, hrest⟩ := List.forall_mem_cons.1 ha
      obtain ⟨hfix, hledger⟩ := a.ledger_perform hs hfirst
      have hall := ih hfix hrest
      rw [hledger] at hall
      exact hall

end

/-! ## What a ledger takes -/

namespace Ledger

/-- An accepted act, and what it makes of the ledger. -/
inductive Takes (l : Ledger) : Act → Ledger → Prop
  | begin (e : EntryPoint) (k : Key) (hp : l.phase (e.site k) ≠ .compiling) :
      Takes l (.report (.begin e k)) { l with phases := l.phases.insert (e.site k) .compiling }
  | abort (cause : Abort) (e : EntryPoint) (k : Key) (hp : l.phase (e.site k) = .compiling) :
      Takes l (.report (.abort cause e k))
        { l with
          phases := l.phases.insert (e.site k) .aborted
          tally := l.tally.add 1 (.aborts cause) }
  /-- The trace that was given up was to become a bridge. -/
  | abortBridge (cause : Abort) (e : EntryPoint) (k : Key) (hp : Settled (l.phase (e.site k))) :
      Takes l (.report (.abort cause e k)) { l with tally := l.tally.add 1 (.aborts cause) }
  | loop (e : EntryPoint) (k : Key) (h : Handle) (ops : List Op) (kind : Kind) (address length : Nat)
      (hp : l.phase (e.site k) = .compiling) (hn : l.loops.find? h = none) :
      Takes l (.report (.loop e k h ops kind address length))
        { l with
          phases := l.phases.insert (e.site k) (.compiled h)
          loops := l.loops.insert h (e.site k)
          tally := l.tally.add 1 .loopsCompiled }
  | bridge (e : EntryPoint) (parent b : Handle) (i : Nat) (ops : List Op) (address length : Nat)
      {s : Site} {p : Phase} (hs : l.loops.find? parent = some s) (he : s.entry = e.id)
      (hp : bridgedPhase b parent (l.phase s) = .ok p) :
      Takes l (.report (.bridge e parent b i ops address length))
        { l with
          phases := l.phases.insert s p
          bridges := l.bridges.insert b parent
          tally := l.tally.add 1 .bridgesCompiled }
  | retireBridge {h p : Handle} (hb : l.bridges.find? h = some p) :
      Takes l (.retire h)
        { l with bridges := l.bridges.erase h, tally := l.tally.add 1 .bridgesRetired }
  | retireLoop {h : Handle} {s : Site} (hb : l.bridges.find? h = none)
      (hs : l.loops.find? h = some s) (hp : (l.phase s).liveLoop? = some h) :
      Takes l (.retire h)
        { l with
          phases := l.phases.insert s (.retired h)
          loops := l.loops.erase h
          tally := l.tally.add 1 .loopsRetired }
  /-- The loop was replaced before. -/
  | retireReplaced {h : Handle} {s : Site} (hb : l.bridges.find? h = none)
      (hs : l.loops.find? h = some s) (hp : (l.phase s).liveLoop? ≠ some h) :
      Takes l (.retire h)
        { l with loops := l.loops.erase h, tally := l.tally.add 1 .loopsRetired }

variable {l l' : Ledger} {a : Act}

theorem Takes.step_eq (h : l.Takes a l') : a.step l = some l' := by
  have hreport : ∀ {r : Report}, r.step l = .ok l' → (Act.report r).step l = some l' :=
    fun hr => congrArg Except.toOption hr
  cases h with
  | begin e k hp => exact hreport (begin_eq_ok_iff.2 ⟨hp, rfl⟩)
  | abort cause e k hp => exact hreport (abort_eq_ok_iff.2 (.inl ⟨hp, rfl⟩))
  | abortBridge cause e k hp => exact hreport (abort_eq_ok_iff.2 (.inr ⟨hp, rfl⟩))
  | loop e k h ops kind address length hp hn =>
      exact hreport (announceLoop_eq_ok_iff.2 ⟨hp, hn, rfl⟩)
  | bridge e parent b i ops address length hs he hp =>
      exact hreport (announceBridge_eq_ok_iff.2 ⟨_, _, hs, he, hp, rfl⟩)
  | retireBridge hb => simp [Act.step, retire?, FinMap.contains, hb]
  | retireLoop hb hs hp => simp [Act.step, retire?, FinMap.contains, hb, hs, hp]
  | retireReplaced hb hs hp => simp [Act.step, retire?, FinMap.contains, hb, hs, hp]

theorem takes_retire {h : Handle} (hr : l.retire? h = some l') : l.Takes (.retire h) l' := by
  simp only [retire?, FinMap.contains] at hr
  cases hb : l.bridges.find? h with
  | some p =>
      simp only [hb, Option.isSome_some, if_true] at hr
      obtain rfl := Option.some.inj hr
      exact .retireBridge hb
  | none =>
      simp only [hb, Option.isSome_none, Bool.false_eq_true, if_false] at hr
      obtain ⟨s, hs, he⟩ := Option.map_eq_some_iff.1 hr
      split_ifs at he with hp
      · rw [← he]
        exact .retireLoop hb hs hp
      · rw [← he]
        exact .retireReplaced hb hs hp

theorem takes_report {r : Report} (hr : r.step l = .ok l') : l.Takes (.report r) l' := by
  cases r with
  | begin e k =>
      obtain ⟨hp, rfl⟩ := begin_eq_ok_iff.1 hr
      exact .begin e k hp
  | abort cause e k =>
      rcases abort_eq_ok_iff.1 hr with ⟨hp, rfl⟩ | ⟨hp, rfl⟩
      · exact .abort cause e k hp
      · exact .abortBridge cause e k hp
  | loop e k h ops kind address length =>
      obtain ⟨hp, hn, rfl⟩ := announceLoop_eq_ok_iff.1 hr
      exact .loop e k h ops kind address length hp hn
  | bridge e parent b i ops address length =>
      obtain ⟨s, p, hs, he, hp, rfl⟩ := announceBridge_eq_ok_iff.1 hr
      exact .bridge e parent b i ops address length hs he hp

theorem step_eq_some_iff : a.step l = some l' ↔ l.Takes a l' := by
  refine ⟨fun h => ?_, Takes.step_eq⟩
  cases a with
  | retire h' => exact takes_retire h
  | report r =>
      apply takes_report
      simp only [Act.step] at h
      cases hr : r.step l with
      | error f =>
          rw [hr] at h
          cases h
      | ok l'' =>
          rw [hr] at h
          exact congrArg Except.ok (Option.some.inj h)

end Ledger

/-! ## Whom an act concerns -/

namespace Act

def loop? : Act → Option (Handle × Site)
  | .report (.loop e k h _ _ _ _) => some (h, e.site k)
  | _ => none

def bridge? : Act → Option (Handle × Handle)
  | .report (.bridge _ p b _ _ _ _) => some (b, p)
  | _ => none

def announced? (a : Act) : Option Handle := (a.loop?.map Prod.fst).or (a.bridge?.map Prod.fst)

end Act

def loopSite? (as : List Act) (h : Handle) : Option Site := (as.filterMap Act.loop?).lookup h

def handleSite? (as : List Act) (h : Handle) : Option Site :=
  (loopSite? as h).or (((as.filterMap Act.bridge?).lookup h).bind (loopSite? as))

/-- The site that an act concerns, where handles are announced by `as`. A bridge for what is no loop,
and the retirement of what is not announced, concern none. -/
def Act.site? (as : List Act) : Act → Option Site
  | .report (.begin e k) => some (e.site k)
  | .report (.abort _ e k) => some (e.site k)
  | .report (.loop e k _ _ _ _ _) => some (e.site k)
  | .report (.bridge _ p _ _ _ _ _) => loopSite? as p
  | .retire h => handleSite? as h

/-- All announcements of a handle concern one site. -/
def OneSite (as : List Act) : Prop :=
  ∀ a ∈ as, ∀ b ∈ as, ∀ h, a.announced? = some h → b.announced? = some h → a.site? as = b.site? as

section

variable {as : List Act} {a : Act} {h p : Handle} {s : Site}

namespace Act

theorem announced?_of_loop? (ha : a.loop? = some (h, s)) : a.announced? = some h := by
  rw [announced?, ha]
  rfl

theorem site?_of_loop? (ha : a.loop? = some (h, s)) : a.site? as = some s := by
  cases a with
  | retire j => cases ha
  | report r =>
      cases r with
      | loop e k j ops kind address length =>
          cases ha
          rfl
      | _ => cases ha

theorem bridge?_of_loop? (ha : a.loop? = some (h, s)) : a.bridge? = none := by
  cases a with
  | retire j => rfl
  | report r =>
      cases r with
      | bridge e q b i ops address length => cases ha
      | _ => rfl

theorem announced?_of_bridge? (ha : a.bridge? = some (h, p)) : a.announced? = some h := by
  cases hl : a.loop? with
  | none =>
      rw [announced?, hl, ha]
      rfl
  | some x =>
      rw [bridge?_of_loop? hl] at ha
      cases ha

theorem site?_of_bridge? (ha : a.bridge? = some (h, p)) : a.site? as = loopSite? as p := by
  cases a with
  | retire j => cases ha
  | report r =>
      cases r with
      | bridge e q b i ops address length =>
          cases ha
          rfl
      | _ => cases ha

end Act

theorem exists_of_lookup {β : Type} {f : Act → Option (Handle × β)} {b : β}
    (hl : (as.filterMap f).lookup h = some b) : ∃ a ∈ as, f a = some (h, b) := by
  obtain ⟨l₁, l₂, he, -⟩ := List.lookup_eq_some_iff.1 hl
  apply List.mem_filterMap.1
  rw [he]
  exact List.mem_append_right l₁ List.mem_cons_self

theorem exists_lookup {β : Type} {f : Act → Option (Handle × β)} {b : β} (ha : a ∈ as)
    (hf : f a = some (h, b)) : ∃ b', (as.filterMap f).lookup h = some b' := by
  rw [← Option.ne_none_iff_exists']
  intro hn
  have hne := List.lookup_eq_none_iff.1 hn (h, b) (List.mem_filterMap.2 ⟨a, ha, hf⟩)
  simp at hne

theorem handleSite?_of_loopSite? (hs : loopSite? as h = some s) : handleSite? as h = some s := by
  rw [handleSite?, hs, Option.some_or]

namespace OneSite

theorem loopSite?_eq (ho : OneSite as) (ha : a ∈ as) (hl : a.loop? = some (h, s)) :
    loopSite? as h = some s := by
  obtain ⟨s', hs'⟩ := exists_lookup ha hl
  obtain ⟨b, hb, hbl⟩ := exists_of_lookup hs'
  have hsite := ho a ha b hb h (Act.announced?_of_loop? hl) (Act.announced?_of_loop? hbl)
  rw [Act.site?_of_loop? hl, Act.site?_of_loop? hbl] at hsite
  rw [hsite]
  exact hs'

/-- A bridge belongs to the site of its loop. -/
theorem handleSite?_eq (ho : OneSite as) (ha : a ∈ as) (hb : a.bridge? = some (h, p))
    (hs : loopSite? as p = some s) : handleSite? as h = some s := by
  have hsite : ∀ b ∈ as, b.announced? = some h → b.site? as = some s := by
    intro b hb' hbh
    rw [ho b hb' a ha h hbh (Act.announced?_of_bridge? hb), Act.site?_of_bridge? hb, hs]
  unfold handleSite?
  cases hl : loopSite? as h with
  | some s' =>
      obtain ⟨b, hb', hbl⟩ := exists_of_lookup hl
      have heq := hsite b hb' (Act.announced?_of_loop? hbl)
      rw [Act.site?_of_loop? hbl] at heq
      rw [Option.some_or, heq]
  | none =>
      obtain ⟨q, hq⟩ := exists_lookup ha hb
      obtain ⟨b, hb', hbl⟩ := exists_of_lookup hq
      have heq := hsite b hb' (Act.announced?_of_bridge? hbl)
      rw [Act.site?_of_bridge? hbl] at heq
      rw [Option.none_or, hq]
      exact heq

end OneSite

/-- Where each handle is announced once, an announcement is told by its handle. -/
theorem eq_of_announced? {b : Act} (hn : (as.filterMap Act.announced?).Nodup) (ha : a ∈ as)
    (hb : b ∈ as) (hah : a.announced? = some h) (hbh : b.announced? = some h) : a = b := by
  by_contra hne
  have hpair := List.pairwise_filterMap.1 hn
  have hsymm : Std.Symm fun a b : Act =>
      ∀ x, a.announced? = some x → ∀ y, b.announced? = some y → x ≠ y :=
    ⟨fun a b hab x hx y hy => (hab y hy x hx).symm⟩
  exact hpair.forall ha hb hne h hah h hbh rfl

theorem oneSite_of_nodup (hn : (as.filterMap Act.announced?).Nodup) : OneSite as := by
  intro a ha b hb h hah hbh
  rw [eq_of_announced? hn ha hb hah hbh]

end

end HotLoop.Lifecycle
