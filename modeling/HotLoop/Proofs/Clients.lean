import HotLoop.Proofs.Repetition

/-!
# Clients of a cache and a monitor

A client drives one cache and one monitor. It reports when it begins to trace and what becomes of the
trace, it installs what it compiles, and it passes on what the cache retires. `Agrees` says what the
ledger of its monitor then has in common with its cache: on a site that was given up, the ledger
takes no loop for live, and otherwise both have the same one.
-/

namespace HotLoop

open Code Lifecycle Trace

inductive Attempt where
  | underway
  | givenUp
  | compiled
  deriving DecidableEq

/-! ## Using what was installed -/

namespace Code

inductive Use where
  | enter (h : Handle)
  | retire (h : Handle)
  | apply (i : Invalidation)

/-- The cache behind the use, and the handles that are reported as retired. -/
def Use.perform (c : Cache) : Use → Cache × List Handle
  | .enter h =>
    match c.enter h with
    | (c, .guardFailed _ retired) => (c, retired)
    | (c, _) => (c, [])
  | .retire h => c.retire h
  | .apply i => c.apply i

structure Cache.Drops (c c' : Cache) (gone : List Handle) : Prop where
  sound : c'.Sound
  next_le : c.next ≤ c'.next
  loops : ∀ s h, c'.loop? s = some h ↔ c.loop? s = some h ∧ h ∉ gone

theorem Cache.Without.drops {c c' : Cache} {gone : List Handle} (hw : c.Without c' gone)
    (hc : c.Sound) : c.Drops c' gone :=
  ⟨hw.sound hc, hw.next.ge, hw.loops⟩

theorem Cache.drops_use {c : Cache} (hc : c.Sound) (u : Use) :
    c.Drops (u.perform c).1 (u.perform c).2 := by
  cases u with
  | enter h =>
      simp only [Use.perform]
      rcases Cache.enter_cases c h with ⟨-, he⟩ | ⟨a, -, -, he⟩ | ⟨a, v, -, -, he⟩ <;> rw [he]
      · exact (Cache.Without.refl hc).drops hc
      · exact ⟨hc.entered h, le_rfl, fun s j => by simp [Cache.loop?]⟩
      · exact (Cache.without_retire hc h).drops hc
  | retire h => exact (Cache.without_retire hc h).drops hc
  | apply i => exact (Cache.without_retireAll i.dependents hc).drops hc

end Code

/-! ## Cache and ledger -/

theorem Lifecycle.Ledger.Coherent.takes_loop {l l' : Ledger} {e : EntryPoint} {k : Key} {h : Handle}
    {ops : List Op} {kind : Kind} {address length : Nat} (hl : l.Coherent)
    (hb : l.bridges.find? h = none)
    (ht : l.Takes (.report (.loop e k h ops kind address length)) l') : l'.Coherent := by
  cases ht with
  | loop e k h ops kind address length hp hn =>
      constructor
      case disjoint =>
        intro j hj
        have hjh : j ≠ h := fun he => hj (he ▸ hb)
        exact (FinMap.find?_insert_of_ne hjh _).trans (hl.disjoint j hj)
      case loop_of_live =>
        intro s j hlive
        rw [Ledger.phase, Ledger.phase_insert l] at hlive
        rw [FinMap.find?_insert]
        split_ifs at hlive with hs
        · rw [if_pos (Option.some.inj hlive).symm, hs]
        · have hj := hl.loop_of_live s j hlive
          have hjh : j ≠ h := by
            rintro rfl
            rw [hn] at hj
            cases hj
          rw [if_neg hjh]
          exact hj

/-- The ledger `l` agrees with the cache `c`, where `as` are the attempts of their client. -/
structure Agrees (c : Cache) (l : Ledger) (as : FinMap Site Attempt) : Prop where
  underway : ∀ s, l.phase s = .compiling ↔ as.find? s = some .underway
  givenUp : ∀ s, l.phase s = .aborted ↔ as.find? s = some .givenUp
  live : ∀ s, l.phase s ≠ .compiling → l.phase s ≠ .aborted → (l.phase s).liveLoop? = c.loop? s
  loops : ∀ s h, l.loops.find? h = some s ↔ c.loop? s = some h
  bridges : ∀ h, l.bridges.find? h ≠ none → h.number < c.next ∧ l.loops.find? h = none

namespace Agrees

variable {c c' : Cache} {l l' : Ledger} {as as' : FinMap Site Attempt} {e : EntryPoint} {k : Key}
  {s : Site}

/-- The ledger takes the loop of the cache for live, unless the site was given up. -/
theorem liveLoop?_eq (ha : Agrees c l as) (hs : as.find? s ≠ some .underway) :
    (l.phase s).liveLoop? = if as.find? s = some .givenUp then none else c.loop? s := by
  split_ifs with hg
  · rw [(ha.givenUp s).2 hg]
    rfl
  · exact ha.live s ((ha.underway s).not.2 hs) ((ha.givenUp s).not.2 hg)

/-- A loop that the ledger takes for live is the loop of the cache, and its site was not given up. -/
theorem of_live (ha : Agrees c l as) {h : Handle} (hl : (l.phase s).liveLoop? = some h) :
    as.find? s ≠ some .underway ∧ as.find? s ≠ some .givenUp ∧ c.loop? s = some h := by
  have hne : ∀ p, l.phase s = p → p.liveLoop? ≠ none := by
    rintro p rfl
    rw [hl]
    exact Option.some_ne_none h
  refine ⟨fun hu => hne _ ((ha.underway s).2 hu) rfl, fun hg => hne _ ((ha.givenUp s).2 hg) rfl, ?_⟩
  rw [← hl]
  exact (ha.live s (fun hp => hne _ hp rfl) fun hp => hne _ hp rfl).symm

theorem coherent (ha : Agrees c l as) : l.Coherent :=
  ⟨fun h hb => (ha.bridges h hb).2, fun s h hl => (ha.loops s h).2 (ha.of_live hl).2.2⟩

theorem unannounced (ha : Agrees c l as) (hc : c.Sound) :
    l.loops.find? ⟨c.next⟩ = none ∧ l.bridges.find? ⟨c.next⟩ = none := by
  constructor
  · rw [Option.eq_none_iff_forall_ne_some]
    exact fun s hs => hc.loop?_ne_next s ((ha.loops s _).1 hs)
  · by_contra hb
    exact lt_irrefl _ (ha.bridges _ hb).1

theorem congr (ha : Agrees c l as) (hphase : ∀ s, l'.phase s = l.phase s)
    (hloops : ∀ h, l'.loops.find? h = l.loops.find? h)
    (hbridges : ∀ h, l'.bridges.find? h = l.bridges.find? h) : Agrees c l' as where
  underway := fun s => by
    rw [hphase]
    exact ha.underway s
  givenUp := fun s => by
    rw [hphase]
    exact ha.givenUp s
  live := fun s => by
    rw [hphase]
    exact ha.live s
  loops := fun s h => by
    rw [hloops]
    exact ha.loops s h
  bridges := fun h hb => by
    rw [hbridges] at hb
    rw [hloops]
    exact ha.bridges h hb

/-- The cache may use up handles, as long as the loops are the same. -/
theorem of_loops (ha : Agrees c l as) (hl : ∀ s, c'.loop? s = c.loop? s) (hn : c.next ≤ c'.next) :
    Agrees c' l as where
  underway := ha.underway
  givenUp := ha.givenUp
  live := fun s => by
    rw [hl]
    exact ha.live s
  loops := fun s h => by
    rw [hl]
    exact ha.loops s h
  bridges := fun h hb => ⟨(ha.bridges h hb).1.trans_le hn, (ha.bridges h hb).2⟩

/-- What is gone from the cache is retired, in any order. -/
theorem drops (ha : Agrees c l as) {gone told : List Handle} (hd : c.Drops c' gone)
    (ht : told.Perm gone) : Agrees c' (told.foldl Ledger.forget l) as := by
  obtain ⟨hbridges, hloops, hphase⟩ := Ledger.find?_foldl_forget told ha.coherent
  constructor
  case underway =>
    intro s
    rw [hphase, Phase.without_eq_iff rfl (by simp)]
    exact ha.underway s
  case givenUp =>
    intro s
    rw [hphase, Phase.without_eq_iff rfl (by simp)]
    exact ha.givenUp s
  case live =>
    intro s hu hg
    rw [hphase, ne_eq, Phase.without_eq_iff rfl (by simp)] at hu hg
    refine Option.ext fun h => ?_
    rw [hphase, Phase.liveLoop?_without_eq_some_iff, ha.live s hu hg, hd.loops, ht.mem_iff]
  case loops =>
    intro s h
    rw [hloops, hd.loops, ← ha.loops, ← ht.mem_iff]
    split_ifs with hh <;> simp [hh]
  case bridges =>
    intro h hb
    have hold : l.bridges.find? h ≠ none := by
      intro hn
      rw [hbridges, hn, ite_self] at hb
      exact hb rfl
    obtain ⟨hlt, hn⟩ := ha.bridges h hold
    refine ⟨hlt.trans_le hd.next_le, ?_⟩
    rw [hloops, hn, ite_self]

/-- Another phase, another attempt and maybe another loop for one site. -/
theorem at_site {p : Phase} (ha : Agrees c l as)
    (hphase : ∀ t, l'.phase t = if t = s then p else l.phase t)
    (hattempts : ∀ t, t ≠ s → as'.find? t = as.find? t)
    (hloop? : ∀ t, t ≠ s → c'.loop? t = c.loop? t)
    (hunderway : p = .compiling ↔ as'.find? s = some .underway)
    (hgivenUp : p = .aborted ↔ as'.find? s = some .givenUp)
    (hlive : p ≠ .compiling → p ≠ .aborted → p.liveLoop? = c'.loop? s)
    (hloops : ∀ s h, l'.loops.find? h = some s ↔ c'.loop? s = some h)
    (hbridges : ∀ h, l'.bridges.find? h ≠ none → h.number < c'.next ∧ l'.loops.find? h = none) :
    Agrees c' l' as' := by
  refine ⟨fun t => ?_, fun t => ?_, fun t => ?_, hloops, hbridges⟩ <;> rw [hphase] <;>
    by_cases ht : t = s
  · rw [if_pos ht, ht]
    exact hunderway
  · rw [if_neg ht, hattempts t ht]
    exact ha.underway t
  · rw [if_pos ht, ht]
    exact hgivenUp
  · rw [if_neg ht, hattempts t ht]
    exact ha.givenUp t
  · rw [if_pos ht, ht]
    exact hlive
  · rw [if_neg ht, hloop? t ht]
    exact ha.live t

theorem of_attempt {p : Phase} {a : Attempt} (ha : Agrees c l as)
    (hphase : ∀ t, l'.phase t = if t = s then p else l.phase t) (hloops : l'.loops = l.loops)
    (hbridges : l'.bridges = l.bridges)
    (hp : p = .compiling ∧ a = .underway ∨ p = .aborted ∧ a = .givenUp) :
    Agrees c l' (as.insert s a) := by
  have has := FinMap.find?_insert as s s a
  rw [if_pos rfl] at has
  refine ha.at_site (p := p) hphase (fun t ht => FinMap.find?_insert_of_ne ht a)
    (fun _ _ => rfl) ?_ ?_ ?_ ?_ ?_
  · rcases hp with ⟨rfl, rfl⟩ | ⟨rfl, rfl⟩ <;> simp
  · rcases hp with ⟨rfl, rfl⟩ | ⟨rfl, rfl⟩ <;> simp
  · rintro hu hg
    rcases hp with ⟨rfl, -⟩ | ⟨rfl, -⟩
    · exact absurd rfl hu
    · exact absurd rfl hg
  · rw [hloops]
    exact ha.loops
  · rw [hloops, hbridges]
    exact ha.bridges

/-! ### Reports -/

theorem takes_begin (ha : Agrees c l as) (ht : l.Takes (.report (.begin e k)) l') :
    Agrees c l' (as.insert (e.site k) .underway) := by
  cases ht with
  | begin e k hp =>
      exact ha.of_attempt (fun t => Ledger.phase_insert l _ t .compiling) rfl rfl
        (Or.inl ⟨rfl, rfl⟩)

theorem takes_abort {cause : Abort} (ha : Agrees c l as)
    (hs : as.find? (e.site k) = some .underway)
    (ht : l.Takes (.report (.abort cause e k)) l') :
    Agrees c l' (as.insert (e.site k) .givenUp) := by
  cases ht with
  | abort cause e k hp =>
      exact ha.of_attempt (fun t => Ledger.phase_insert l _ t .aborted) rfl rfl
        (Or.inr ⟨rfl, rfl⟩)
  | abortBridge cause e k hp => exact absurd ((ha.underway _).2 hs) hp.2.2

theorem takes_abortBridge {cause : Abort} (ha : Agrees c l as)
    (hs : as.find? (e.site k) ≠ some .underway)
    (ht : l.Takes (.report (.abort cause e k)) l') : Agrees c l' as := by
  cases ht with
  | abort cause e k hp => exact absurd ((ha.underway _).1 hp) hs
  | abortBridge cause e k hp => exact ⟨ha.underway, ha.givenUp, ha.live, ha.loops, ha.bridges⟩

/-- A loop is announced for a site that has none in the cache, and it is stored there. -/
theorem takes_loop {h : Handle} {ops : List Op} {kind : Kind} {address length : Nat}
    (ha : Agrees c l as) (hfree : c.loop? (e.site k) = none) (hb : l.bridges.find? h = none)
    (ht : l.Takes (.report (.loop e k h ops kind address length)) l') (g : Guards) (ops' : List Op) :
    Agrees (c.putLoop h (e.site k) g ops') l' (as.insert (e.site k) .compiled) := by
  cases ht with
  | loop e k h ops kind address length hp hn =>
      have hphase := fun t => Ledger.phase_insert l (e.site k) t (.compiled h)
      refine ha.at_site (p := .compiled h) hphase (fun t ht => FinMap.find?_insert_of_ne ht _)
        (fun t ht => ?_) (by simp) (by simp) (fun _ _ => ?_) (fun t j => ?_) fun j hj => ?_
      · rw [Cache.loop?_putLoop, if_neg ht]
      · rw [Cache.loop?_putLoop, if_pos rfl]
        rfl
      · have hold := ha.loops t j
        rw [FinMap.find?_insert, Cache.loop?_putLoop]
        by_cases hj : j = h
        · rw [hj, hn] at hold
          rw [if_pos hj, hj]
          by_cases ht : t = e.site k
          · simp [ht]
          · rw [if_neg ht, ← hold]
            simp [Ne.symm ht]
        · rw [if_neg hj, hold]
          by_cases ht : t = e.site k
          · simp [ht, hfree, Ne.symm hj]
          · rw [if_neg ht]
      · have hjh : j ≠ h := fun he => hj (he ▸ hb)
        obtain ⟨hjlt, hjn⟩ := ha.bridges j hj
        exact ⟨hjlt, (FinMap.find?_insert_of_ne hjh _).trans hjn⟩

/-- What the loop replaces may be retired before it is announced or after. -/
theorem takes_loop_replacing {h : Handle} {ops : List Op} {kind : Kind} {address length : Nat}
    {gone before after : List Handle} (ha : Agrees c l as) (hd : c.Drops c' gone)
    (htold : (before ++ after).Perm gone) (hfree : c'.loop? (e.site k) = none) (hh : h ∉ gone)
    (hb : l.bridges.find? h = none)
    (ht : (before.foldl Ledger.forget l).Takes (.report (.loop e k h ops kind address length)) l')
    (g : Guards) (ops' : List Op) :
    Agrees (c'.putLoop h (e.site k) g ops') (after.foldl Ledger.forget l')
      (as.insert (e.site k) .compiled) := by
  have hfirst := ha.coherent.foldl_forget before
  have hall := ha.drops hd htold
  have hbridge : (before.foldl Ledger.forget l).bridges.find? h = none := by
    rw [(Ledger.find?_foldl_forget before ha.coherent).1, hb, ite_self]
  have hafter : h ∉ after := fun hm => hh (htold.mem_iff.1 (List.mem_append_right _ hm))
  rw [List.foldl_append] at hall
  generalize before.foldl Ledger.forget l = l₁ at *
  have hl' := hfirst.takes_loop hbridge ht
  obtain ⟨hbridges₁, hloops₁, hphase₁⟩ := Ledger.find?_foldl_forget after hfirst
  obtain ⟨hbridges', hloops', hphase'⟩ := Ledger.find?_foldl_forget after hl'
  cases ht with
  | loop e k h ops kind address length hp hn =>
      -- with all of `gone` retired first, the loop is announced as well
      have hlast : (after.foldl Ledger.forget l₁).Takes
          (.report (.loop e k h ops kind address length)) _ :=
        .loop e k h ops kind address length
          (by rw [hphase₁, Phase.without_eq_iff rfl (by simp)]; exact hp)
          (by rw [hloops₁, hn, ite_self])
      have hlast' := hall.takes_loop hfree (by rw [hbridges₁, hbridge, ite_self]) hlast g ops'
      refine hlast'.congr (fun s => ?_) (fun j => ?_) fun j => ?_
      · rw [hphase', Ledger.phase, Ledger.phase, Ledger.phase_insert, Ledger.phase_insert]
        split_ifs
        · refine Phase.without_of_not_mem fun j hj hlive => hafter ?_
          rwa [Option.some.inj hlive]
        · exact (hphase₁ s).symm
      · rw [hloops', FinMap.find?_insert, FinMap.find?_insert, hloops₁]
        by_cases hj : j = h
        · rw [if_neg (hj ▸ hafter), if_pos hj, if_pos hj]
        · rw [if_neg hj, if_neg hj]
      · rw [hbridges', hbridges₁]

/-- A bridge is announced under a handle that is used up and is not the one of a loop. -/
theorem takes_bridge {parent b : Handle} {i : Nat} {ops : List Op} {address length : Nat}
    (ha : Agrees c l as) (hb : l.loops.find? b = none) (hlt : b.number < c.next)
    (ht : l.Takes (.report (.bridge e parent b i ops address length)) l') : Agrees c l' as := by
  cases ht with
  | @bridge e parent b i ops address length s p hs he hp =>
      obtain ⟨hlive, -, rfl⟩ := Ledger.bridgedPhase_eq_ok_iff.1 hp
      obtain ⟨hunderway, hgivenUp, hloop⟩ := ha.of_live hlive
      have hphase := fun t => Ledger.phase_insert l s t (.bridged parent ((l.phase s).bridges + 1))
      refine ha.at_site hphase (fun _ _ => rfl) (fun _ _ => rfl) (by simp [hunderway])
        (by simp [hgivenUp]) (fun _ _ => hloop.symm) ha.loops fun j hj => ?_
      by_cases hjb : j = b
      · rw [hjb]
        exact ⟨hlt, hb⟩
      · rw [FinMap.find?_insert_of_ne hjb] at hj
        exact ha.bridges j hj

end Agrees

/-! ## Clients -/

/-- A client of a cache and a monitor that share the shapes of keys. `attempts` is what the client
knows by itself, from what it did and what the cache answered. -/
structure Client where
  cache : Cache
  shapes : Shapes
  monitor : Monitor
  attempts : FinMap Site Attempt := ∅

namespace Client

def fresh (table : Nat) (shapes : Shapes) (os : List Observer) : Client where
  cache := { versions := { table := table } }
  shapes := shapes
  monitor := { observers := os }

def tell (w : Client) (a : Act) : Client :=
  let s := a.perform (w.shapes, w.monitor)
  { w with shapes := s.1, monitor := s.2 }

def tellRetired (w : Client) (hs : List Handle) : Client :=
  hs.foldl (fun w h => w.tell (.retire h)) w

def mark (w : Client) (s : Site) (a : Attempt) : Client :=
  { w with attempts := w.attempts.insert s a }

/-- What a client does that keeps to the protocol. -/
inductive Step (w : Client) : Client → Prop
  | begin (e : EntryPoint) (k : Key) (hs : w.attempts.find? (e.site k) ≠ some .underway)
      (hk : ∃ shapes, w.shapes.check e k = .ok shapes) :
      Step w ((w.tell (.report (.begin e k))).mark (e.site k) .underway)
  | abort (cause : Abort) (e : EntryPoint) (k : Key)
      (hs : w.attempts.find? (e.site k) = some .underway)
      (hk : ∃ shapes, w.shapes.check e k = .ok shapes) :
      Step w ((w.tell (.report (.abort cause e k))).mark (e.site k) .givenUp)
  /-- The trace that is given up was to become a bridge. -/
  | abortBridge (cause : Abort) (e : EntryPoint) (k : Key)
      (hs : w.attempts.find? (e.site k) ≠ some .underway) :
      Step w (w.tell (.report (.abort cause e k)))
  /-- The attempt ends in a loop. What the loop replaces is retired, some of it before the loop is
  announced and some after. -/
  | loop (e : EntryPoint) (k : Key) (g : Guards) (ops : List Op) (kind : Kind) (address length : Nat)
      (before after : List Handle) {i : LoopInstall} {shapes : Shapes} {c : Cache}
      (hs : w.attempts.find? (e.site k) = some .underway)
      (hi : Cache.installLoop e k g ops (w.shapes, w.cache) = .ok (.ok i) (shapes, c))
      (hr : (before ++ after).Perm i.replaced) :
      Step w (((({ w with shapes := shapes, cache := c }.tellRetired before).tell
        (.report (.loop e k i.handle ops kind address length))).tellRetired after).mark
        (e.site k) .compiled)
  /-- A guard of the loop is stale. The attempt goes on. -/
  | loopRefused (e : EntryPoint) (k : Key) (g : Guards) (ops : List Op) {l : Location}
      {shapes : Shapes} {c : Cache} (hs : w.attempts.find? (e.site k) = some .underway)
      (hi : Cache.installLoop e k g ops (w.shapes, w.cache) = .ok (.error l) (shapes, c)) :
      Step w { w with shapes := shapes, cache := c }
  /-- A bridge is attached to the live loop of a site. -/
  | bridge (e : EntryPoint) (k : Key) (parent : Handle) (i : Nat) (g : Guards) (ops : List Op)
      (address length : Nat) {b : Handle} {c : Cache}
      (hp : w.cache.loop? (e.site k) = some parent)
      (hi : Cache.installBridge parent i g ops w.cache = .ok (.ok b) c) :
      Step w ({ w with cache := c }.tell (.report (.bridge e parent b i ops address length)))
  | bridgeRefused (parent : Handle) (i : Nat) (g : Guards) (ops : List Op) {l : Location} {c : Cache}
      (hi : Cache.installBridge parent i g ops w.cache = .ok (.error l) c) :
      Step w { w with cache := c }
  /-- What an entry check, a retirement or an invalidation takes out is retired, in any order. -/
  | use (u : Use) (told : List Handle) (hr : told.Perm (u.perform w.cache).2) :
      Step w ({ w with cache := (u.perform w.cache).1 }.tellRetired told)
  | capture (l : Location) :
      Step w { w with cache := { w.cache with versions := (w.cache.versions.read l).1 } }
  | invalidate {l : Location} {t : Versions} {i : Invalidation}
      (hi : w.cache.versions.invalidate? l = some (t, i)) :
      Step w { w with cache := { w.cache with versions := t } }
  | observe (o : Observer) : Step w { w with monitor := w.monitor.addObserver o }

/-- The client has kept to the protocol from the beginning. -/
def Reachable (w : Client) : Prop :=
  ∃ table shapes os, Relation.ReflTransGen Step (fresh table shapes os) w

structure Sound (w : Client) : Prop where
  cache : w.cache.Sound
  agrees : Agrees w.cache w.monitor.ledger w.attempts

variable {w w' : Client} {e : EntryPoint} {k : Key}

theorem sound_fresh (table : Nat) (shapes : Shapes) (os : List Observer) :
    (fresh table shapes os).Sound where
  cache := Cache.sound_empty table
  agrees :=
    { underway := fun s => iff_of_false (fun hp => by cases hp) fun hs => by cases hs
      givenUp := fun s => iff_of_false (fun hp => by cases hp) fun hs => by cases hs
      live := fun s _ _ => rfl
      loops := fun s h => iff_of_false (fun hl => by cases hl) fun hl => by cases hl
      bridges := fun h hb => absurd rfl hb }

/-! ### Telling -/

@[simp] theorem ledger_tellRetired (w : Client) (hs : List Handle) :
    (w.tellRetired hs).monitor.ledger = hs.foldl Ledger.forget w.monitor.ledger := by
  induction hs generalizing w with
  | nil => rfl
  | cons h hs ih =>
      refine (ih (w.tell (.retire h))).trans ?_
      rw [List.foldl_cons]
      exact congrArg (fun m : Monitor => hs.foldl Ledger.forget m.ledger) (w.monitor.fst_retire h)

theorem tellRetired_eq (w : Client) (hs : List Handle) :
    w.tellRetired hs = { w with monitor := (w.tellRetired hs).monitor } := by
  induction hs generalizing w with
  | nil => rfl
  | cons h hs ih => exact (ih (w.tell (.retire h))).trans rfl

@[simp] theorem cache_tellRetired (w : Client) (hs : List Handle) :
    (w.tellRetired hs).cache = w.cache := by
  rw [tellRetired_eq]

@[simp] theorem attempts_tellRetired (w : Client) (hs : List Handle) :
    (w.tellRetired hs).attempts = w.attempts := by
  rw [tellRetired_eq]

@[simp] theorem cache_tell (w : Client) (a : Act) : (w.tell a).cache = w.cache := rfl

@[simp] theorem attempts_tell (w : Client) (a : Act) : (w.tell a).attempts = w.attempts := rfl

@[simp] theorem cache_mark (w : Client) (s : Site) (a : Attempt) : (w.mark s a).cache = w.cache := rfl

@[simp] theorem monitor_mark (w : Client) (s : Site) (a : Attempt) :
    (w.mark s a).monitor = w.monitor := rfl

@[simp] theorem attempts_mark (w : Client) (s : Site) (a : Attempt) :
    (w.mark s a).attempts = w.attempts.insert s a := rfl

theorem takes_tell {r : Report} {l : Ledger} (hc : ∃ shapes, r.check w.shapes = .ok shapes)
    (hr : r.step w.monitor.ledger = .ok l) :
    w.monitor.ledger.Takes (.report r) (w.tell (.report r)).monitor.ledger :=
  takes_of_taken (s := (w.shapes, w.monitor)) (taken_report_iff.2 ⟨hc, l, hr⟩)

theorem takes_tell_of_retired {r : Report} {l : Ledger} (hs : List Handle)
    (hc : ∃ shapes, r.check w.shapes = .ok shapes)
    (hr : r.step (hs.foldl Ledger.forget w.monitor.ledger) = .ok l) :
    (hs.foldl Ledger.forget w.monitor.ledger).Takes (.report r)
      ((w.tellRetired hs).tell (.report r)).monitor.ledger := by
  rw [← ledger_tellRetired] at hr ⊢
  refine takes_tell ?_ hr
  rw [tellRetired_eq]
  exact hc

theorem takes_or_same (w : Client) (a : Act) :
    w.monitor.ledger.Takes a (w.tell a).monitor.ledger ∨
      (w.tell a).monitor.ledger = w.monitor.ledger := by
  by_cases ha : a.Taken (w.shapes, w.monitor) = true
  · exact Or.inl (takes_of_taken ha)
  · exact Or.inr (congrArg Monitor.ledger (perform_of_not_taken ha))

/-! ### The invariant -/

theorem Sound.begin (hw : w.Sound) (hs : w.attempts.find? (e.site k) ≠ some .underway)
    (hk : ∃ shapes, w.shapes.check e k = .ok shapes) :
    ((w.tell (.report (.begin e k))).mark (e.site k) .underway).Sound := by
  have hstep := Ledger.begin_eq_ok_iff.2 ⟨(hw.agrees.underway _).not.2 hs, rfl⟩
  exact ⟨hw.cache, hw.agrees.takes_begin (takes_tell (r := .begin e k) hk hstep)⟩

theorem Sound.abort (hw : w.Sound) (cause : Abort)
    (hs : w.attempts.find? (e.site k) = some .underway)
    (hk : ∃ shapes, w.shapes.check e k = .ok shapes) :
    ((w.tell (.report (.abort cause e k))).mark (e.site k) .givenUp).Sound := by
  have hstep : w.monitor.ledger.abort cause e k = .ok _ :=
    Ledger.abort_eq_ok_iff.2 (.inl ⟨(hw.agrees.underway _).2 hs, rfl⟩)
  exact ⟨hw.cache, hw.agrees.takes_abort hs (takes_tell (r := .abort cause e k) hk hstep)⟩

theorem Sound.abortBridge (hw : w.Sound) (cause : Abort)
    (hs : w.attempts.find? (e.site k) ≠ some .underway) :
    (w.tell (.report (.abort cause e k))).Sound := by
  refine ⟨hw.cache, ?_⟩
  rcases w.takes_or_same (.report (.abort cause e k)) with ht | hsame
  · exact hw.agrees.takes_abortBridge hs ht
  · rw [hsame]
    exact hw.agrees

theorem Sound.loop (hw : w.Sound) {g : Guards} {ops : List Op} {kind : Kind} {address length : Nat}
    {before after : List Handle} {i : LoopInstall} {shapes : Shapes} {c : Cache}
    (hs : w.attempts.find? (e.site k) = some .underway)
    (hi : Cache.installLoop e k g ops (w.shapes, w.cache) = .ok (.ok i) (shapes, c))
    (hr : (before ++ after).Perm i.replaced) :
    (((({ w with shapes := shapes, cache := c }.tellRetired before).tell
      (.report (.loop e k i.handle ops kind address length))).tellRetired after).mark
      (e.site k) .compiled).Sound := by
  have hsound := hw.cache.addLoop (e.site k) g ops
  obtain ⟨hcheck, hadd⟩ := Cache.of_installLoop hi
  obtain ⟨rfl, rfl⟩ := Cache.of_addLoop_ok hadd
  rw [hadd] at hsound
  have hreg := hw.cache.register g
  obtain ⟨hwithout, hfree⟩ := Cache.without_vacate hreg (e.site k)
  obtain ⟨hnew, hnewBridge⟩ := hw.agrees.unannounced hw.cache
  obtain ⟨-, hloops, hphase⟩ := Ledger.find?_foldl_forget before hw.agrees.coherent
  -- the handle is new, so it is not among those that the loop replaces
  have hh : (⟨w.cache.next⟩ : Handle) ∉ ((w.cache.register g).1.vacate (e.site k)).2 := by
    intro hm
    obtain ⟨a, ha⟩ := hwithout.listed _ hm
    exact hw.cache.ne_next ha rfl
  have hstep : ∃ l, (before.foldl Ledger.forget w.monitor.ledger).announceLoop e k
      ⟨w.cache.next⟩ = .ok l := by
    refine ⟨_, Ledger.announceLoop_eq_ok_iff.2 ⟨?_, ?_, rfl⟩⟩
    · rw [hphase, Phase.without_eq_iff rfl (by simp)]
      exact (hw.agrees.underway _).2 hs
    · rw [hloops, hnew, ite_self]
  have hagrees : Agrees (w.cache.register g).1 w.monitor.ledger w.attempts :=
    hw.agrees.of_loops (fun _ => rfl) (Nat.le_succ _)
  obtain ⟨l, hl⟩ := hstep
  have ht := fun c => takes_tell_of_retired (w := { w with shapes := shapes, cache := c })
    (r := .loop e k ⟨w.cache.next⟩ ops kind address length) before
    ⟨shapes, Shapes.accepts_of_check hcheck⟩ hl
  refine ⟨by simpa using hsound, ?_⟩
  simp only [cache_mark, cache_tellRetired, cache_tell, monitor_mark, ledger_tellRetired,
    attempts_mark, attempts_tellRetired, attempts_tell]
  exact hagrees.takes_loop_replacing (hwithout.drops hreg) hr hfree hh hnewBridge (ht _) g ops

theorem Sound.loopRefused (hw : w.Sound) {g : Guards} {ops : List Op} {l : Location}
    {shapes : Shapes} {c : Cache}
    (hi : Cache.installLoop e k g ops (w.shapes, w.cache) = .ok (.error l) (shapes, c)) :
    Sound { w with shapes := shapes, cache := c } := by
  obtain rfl := Cache.of_addLoop_error (Cache.of_installLoop hi).2
  exact ⟨hw.cache.register g, hw.agrees.of_loops (fun _ => rfl) (Nat.le_succ _)⟩

/-- Attaching a bridge uses up a handle, and the loops are the same. -/
theorem Sound.attach (hw : w.Sound) {parent : Handle} {i : Nat} {g : Guards} {ops : List Op}
    {r : Except Location Handle} {c : Cache}
    (hi : Cache.installBridge parent i g ops w.cache = .ok r c) :
    Sound { w with cache := c } ∧ c.next = w.cache.next + 1 ∧
      ∀ b, r = .ok b → b = ⟨w.cache.next⟩ := by
  obtain ⟨p, hp, hk, hadd⟩ := Cache.of_installBridge hi
  have hsound := hw.cache.addBridge hp hk i g ops
  cases hg : g.firstStale? w.cache.versions with
  | some v =>
      rw [Cache.addBridge_of_stale hg] at hadd hsound
      cases hadd
      exact ⟨⟨hsound, hw.agrees.of_loops (fun _ => rfl) (Nat.le_succ _)⟩, rfl, nofun⟩
  | none =>
      rw [Cache.addBridge_of_current hg] at hadd hsound
      cases hadd
      exact ⟨⟨hsound, hw.agrees.of_loops (fun _ => rfl) (Nat.le_succ _)⟩, rfl,
        fun b hb => (Except.ok.inj hb).symm⟩

theorem Sound.bridge (hw : w.Sound) {parent : Handle} {i : Nat} {g : Guards} {ops : List Op}
    {address length : Nat} {b : Handle} {c : Cache}
    (hi : Cache.installBridge parent i g ops w.cache = .ok (.ok b) c) :
    ({ w with cache := c }.tell (.report (.bridge e parent b i ops address length))).Sound := by
  obtain ⟨⟨hc, hagrees⟩, hnext, hb⟩ := hw.attach hi
  obtain rfl := hb b rfl
  refine ⟨hc, ?_⟩
  rcases takes_or_same { w with cache := c }
    (.report (.bridge e parent ⟨w.cache.next⟩ i ops address length)) with ht | hsame
  · refine hagrees.takes_bridge (hw.agrees.unannounced hw.cache).1 ?_ ht
    rw [hnext]
    exact Nat.lt_succ_self _
  · rw [cache_tell, attempts_tell, hsame]
    exact hagrees

theorem Sound.use (hw : w.Sound) (u : Use) {told : List Handle}
    (hr : told.Perm (u.perform w.cache).2) :
    ({ w with cache := (u.perform w.cache).1 }.tellRetired told).Sound := by
  have hd := Cache.drops_use hw.cache u
  refine ⟨?_, ?_⟩
  · rw [cache_tellRetired]
    exact hd.sound
  · rw [cache_tellRetired, ledger_tellRetired, attempts_tellRetired]
    exact hw.agrees.drops hd hr

theorem Step.sound (hs : Step w w') (hw : w.Sound) : w'.Sound := by
  cases hs with
  | begin e k hs hk => exact hw.begin hs hk
  | abort cause e k hs hk => exact hw.abort cause hs hk
  | abortBridge cause e k hs => exact hw.abortBridge cause hs
  | loop e k g ops kind address length before after hs hi hr => exact hw.loop hs hi hr
  | loopRefused e k g ops hs hi => exact hw.loopRefused hi
  | bridge e k parent i g ops address length hp hi => exact hw.bridge hi
  | bridgeRefused parent i g ops hi => exact (hw.attach hi).1
  | use u told hr => exact hw.use u hr
  | capture l => exact ⟨hw.cache.read l, hw.agrees.of_loops (fun _ => rfl) le_rfl⟩
  | invalidate hi => exact ⟨hw.cache.invalidate hi, hw.agrees.of_loops (fun _ => rfl) le_rfl⟩
  | observe o => exact ⟨hw.cache, hw.agrees⟩

theorem Reachable.sound (hw : w.Reachable) : w.Sound := by
  obtain ⟨table, shapes, os, hsteps⟩ := hw
  induction hsteps with
  | refl => exact sound_fresh table shapes os
  | tail _ hs ih => exact hs.sound ih

/-- Wherever no attempt is underway, cache and ledger have the same live loop, and each bridge on it
is accepted, just as long as the site was not given up and the bridge can be counted. If the site was
given up, the cache may have a live loop there: the ledger has forgotten it, and refuses its
bridges. -/
theorem live_unless_givenUp (hw : w.Reachable) (hs : w.attempts.find? (e.site k) ≠ some .underway) :
    (w.monitor.ledger.phase (e.site k)).liveLoop? =
        (if w.attempts.find? (e.site k) = some .givenUp then none else w.cache.loop? (e.site k)) ∧
      ∀ p b i ops address length, w.cache.loop? (e.site k) = some p →
        ((Act.report (.bridge e p b i ops address length)).Taken (w.shapes, w.monitor) = true ↔
          w.attempts.find? (e.site k) ≠ some .givenUp ∧
            (w.monitor.ledger.phase (e.site k)).Room) := by
  obtain ⟨-, ha⟩ := hw.sound
  have hlive := ha.liveLoop?_eq hs
  refine ⟨hlive, fun p b i ops address length hp => ?_⟩
  have hloop := (ha.loops (e.site k) p).2 hp
  rw [taken_bridge_iff]
  constructor
  · rintro ⟨k', hk', hk'live, hroom⟩
    obtain hsite := Option.some.inj (hk'.symm.trans hloop)
    dsimp only at hk'live hroom
    rw [hsite] at hk'live hroom
    refine ⟨fun hg => ?_, hroom⟩
    rw [hlive, if_pos hg] at hk'live
    cases hk'live
  · rintro ⟨hg, hroom⟩
    refine ⟨k, hloop, ?_, hroom⟩
    dsimp only
    rw [hlive, if_neg hg, hp]

/-- The loop of a site is compiled once more, and the first one is retired. -/
theorem live_unless_givenUp_recompiled :
    let e : EntryPoint := ⟨0, "loop", ["n"], ["i"]⟩
    let k : Key := ⟨[.int 1]⟩
    ∃ w : Client, w.Reachable ∧ w.attempts.find? (e.site k) = some .compiled ∧
      w.cache.loop? (e.site k) = some ⟨2⟩ ∧ w.cache.isLive ⟨1⟩ = false ∧
      (w.monitor.ledger.phase (e.site k)).liveLoop? = some ⟨2⟩ ∧
      (Act.report (.bridge e ⟨2⟩ ⟨3⟩ 0 [.jump] 0 0)).Taken (w.shapes, w.monitor) = true := by
  intro e k
  have h₁ := (Relation.ReflTransGen.refl (r := Step) (a := fresh 0 ∅ [])).tail
    (.begin e k (by decide) ⟨_, rfl⟩)
  have h₂ := h₁.tail (.loop e k .empty [.label, .jump] .loop 0 0 [] [] rfl rfl (.refl _))
  have h₃ := h₂.tail (.begin e k (by decide +kernel) ⟨_, rfl⟩)
  have h₄ := h₃.tail (.loop e k .empty [.label, .jump] .loop 0 0 [] [⟨1⟩] rfl rfl (.refl _))
  refine ⟨_, ⟨0, ∅, [], h₄⟩, ?_⟩
  generalize hw : mark _ _ _ = w at h₄
  have hcompiled : w.attempts.find? (e.site k) = some .compiled := by
    rw [← hw]
    decide +kernel
  have hloop : w.cache.loop? (e.site k) = some ⟨2⟩ := by
    rw [← hw]
    decide +kernel
  have hdead : w.cache.isLive ⟨1⟩ = false := by
    rw [← hw]
    decide +kernel
  have hroom : (w.monitor.ledger.phase (e.site k)).Room := by
    rw [← hw]
    decide +kernel
  have hreachable : w.Reachable := ⟨0, ∅, [], h₄⟩
  obtain ⟨hlive, hbridge⟩ := live_unless_givenUp hreachable (e := e) (k := k) (by simp [hcompiled])
  rw [if_neg (by simp [hcompiled]), hloop] at hlive
  refine ⟨hcompiled, hloop, hdead, hlive, ?_⟩
  exact (hbridge ⟨2⟩ ⟨3⟩ 0 [.jump] 0 0 hloop).2 ⟨by simp [hcompiled], hroom⟩

/-- The second attempt at a site is given up while the loop of the first one is live. -/
theorem loop_forgotten_while_live :
    let e : EntryPoint := ⟨0, "loop", ["n"], ["i"]⟩
    let k : Key := ⟨[.int 1]⟩
    ∃ w : Client, w.Reachable ∧ w.attempts.find? (e.site k) = some .givenUp ∧
      w.cache.loop? (e.site k) = some ⟨1⟩ ∧
      (w.monitor.ledger.phase (e.site k)).liveLoop? = none ∧
      (∃ c, Cache.installBridge ⟨1⟩ 0 .empty [.jump] w.cache = .ok (.ok ⟨2⟩) c) ∧
      (Act.report (.bridge e ⟨1⟩ ⟨2⟩ 0 [.jump] 0 0)).Taken (w.shapes, w.monitor) = false := by
  intro e k
  have h₁ := (Relation.ReflTransGen.refl (r := Step) (a := fresh 0 ∅ [])).tail
    (.begin e k (by decide) ⟨_, rfl⟩)
  have h₂ := h₁.tail (.loop e k .empty [.label, .jump] .loop 0 0 [] [] rfl rfl (.refl _))
  have h₃ := h₂.tail (.begin e k (by decide +kernel) ⟨_, rfl⟩)
  have h₄ := h₃.tail (.abort .badLoop e k rfl ⟨_, rfl⟩)
  refine ⟨_, ⟨0, ∅, [], h₄⟩, ?_, ?_, ?_, ⟨_, rfl⟩, ?_⟩
  · decide +kernel
  · decide +kernel
  · decide +kernel
  · decide +kernel

end Client

end HotLoop
