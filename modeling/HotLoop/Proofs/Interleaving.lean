import HotLoop.Proofs.Counts
import HotLoop.Proofs.Lifecycles

/-!
# Sites do not meet

What concerns one site neither reads nor writes what belongs to another. So a ledger agrees on each
site with one that is told of nothing else, and how the acts of several sites are interleaved is not
seen in the end.
-/

namespace HotLoop

namespace Lifecycle

/-! ## What belongs to a site -/

structure AgreeOn (as : List Act) (s : Site) (l m : Ledger) : Prop where
  phases : l.phases.find? s = m.phases.find? s
  loop : ∀ h, handleSite? as h = some s → l.loops.find? h = m.loops.find? h
  bridge : ∀ h, handleSite? as h = some s → l.bridges.find? h = m.bridges.find? h

def Act.counter? (l : Ledger) : Act → Option Tally.Counter
  | .report (.begin _ _) => none
  | .report (.abort cause _ _) => some (.aborts cause)
  | .report (.loop _ _ _ _ _ _ _) => some .loopsCompiled
  | .report (.bridge _ _ _ _ _ _ _) => some .bridgesCompiled
  | .retire h => if l.bridges.contains h then some .bridgesRetired else some .loopsRetired

def Act.entry? (as : List Act) (l : Ledger) (a : Act) : Option (Site × Tally.Counter) :=
  (a.site? as).bind fun s => (a.counter? l).map fun c => (s, c)

def counted (as : List Act) : Ledger → List Act → List (Site × Tally.Counter)
  | _, [] => []
  | l, a :: acts =>
    match a.step l with
    | some l' => (a.entry? as l).toList ++ counted as l' acts
    | none => counted as l acts

section

variable {as acts : List Act} {a : Act} {l l' m : Ledger} {h : Handle} {s t : Site}

namespace AgreeOn

theorem refl (as : List Act) (s : Site) (l : Ledger) : AgreeOn as s l l :=
  ⟨rfl, fun _ _ => rfl, fun _ _ => rfl⟩

theorem symm (hag : AgreeOn as s l m) : AgreeOn as s m l :=
  ⟨hag.phases.symm, fun h hs => (hag.loop h hs).symm, fun h hs => (hag.bridge h hs).symm⟩

theorem trans (hl : AgreeOn as s l l') (hm : AgreeOn as s l' m) : AgreeOn as s l m :=
  ⟨hl.phases.trans hm.phases, fun h hs => (hl.loop h hs).trans (hm.loop h hs),
    fun h hs => (hl.bridge h hs).trans (hm.bridge h hs)⟩

theorem phase (hag : AgreeOn as s l m) : m.phase s = l.phase s := by
  rw [Ledger.phase, Ledger.phase, FinMap.findD, FinMap.findD, hag.phases]

theorem entry?_eq (hag : AgreeOn as s l m) (hs : a.site? as = some s) :
    a.entry? as m = a.entry? as l := by
  have hcount : a.counter? m = a.counter? l := by
    cases a with
    | retire h => rw [Act.counter?, Act.counter?, FinMap.contains, FinMap.contains, hag.bridge h hs]
    | report r => cases r <;> rfl
  rw [Act.entry?, Act.entry?, hcount]

/-- Ledgers that agree on a site take alike what concerns it. -/
theorem takes (hag : AgreeOn as s l m) (hk : l.Known as) (ho : OneSite as) (ha : a ∈ as)
    (hs : a.site? as = some s) (ht : l.Takes a l') :
    ∃ m', m.Takes a m' ∧ AgreeOn as s l' m' := by
  have hsite : ∀ {h t}, l.loops.find? h = some t → handleSite? as h = some s → t = s :=
    fun ht hh => Option.some.inj
      ((handleSite?_of_loopSite? (hk.loopSite? ho ht)).symm.trans hh)
  cases ht with
  | begin e k hp =>
      obtain rfl := Option.some.inj hs
      exact ⟨_, .begin e k (hag.phase ▸ hp),
        ⟨FinMap.find?_insert_congr hag.phases _ _, hag.loop, hag.bridge⟩⟩
  | abort cause e k hp =>
      obtain rfl := Option.some.inj hs
      exact ⟨_, .abort cause e k (hag.phase.trans hp),
        ⟨FinMap.find?_insert_congr hag.phases _ _, hag.loop, hag.bridge⟩⟩
  | abortBridge cause e k hp =>
      obtain rfl := Option.some.inj hs
      exact ⟨_, .abortBridge cause e k (hag.phase ▸ hp), ⟨hag.phases, hag.loop, hag.bridge⟩⟩
  | loop e k h ops kind address length hp hn =>
      obtain rfl := Option.some.inj hs
      have hh : handleSite? as h = some (e.site k) :=
        handleSite?_of_loopSite? (ho.loopSite?_eq ha rfl)
      refine ⟨_, .loop e k h ops kind address length (hag.phase.trans hp)
        ((hag.loop h hh).symm.trans hn), ⟨FinMap.find?_insert_congr hag.phases _ _, ?_,
          hag.bridge⟩⟩
      exact fun j hj => FinMap.find?_insert_congr (hag.loop j hj) _ _
  | bridge e parent b i ops address length hl he hp =>
      have hh := handleSite?_of_loopSite? hs
      obtain rfl := hsite hl hh
      refine ⟨_, .bridge e parent b i ops address length ((hag.loop parent hh).symm.trans hl) he
        (hag.phase ▸ hp), ⟨FinMap.find?_insert_congr hag.phases _ _, hag.loop, ?_⟩⟩
      exact fun j hj => FinMap.find?_insert_congr (hag.bridge j hj) _ _
  | retireBridge hb =>
      refine ⟨_, .retireBridge ((hag.bridge _ hs).symm.trans hb), ⟨hag.phases, hag.loop, ?_⟩⟩
      exact fun j hj => FinMap.find?_erase_congr (hag.bridge j hj) _
  | retireLoop hb hl hp =>
      obtain rfl := hsite hl hs
      refine ⟨_, .retireLoop ((hag.bridge _ hs).symm.trans hb) ((hag.loop _ hs).symm.trans hl)
        (hag.phase ▸ hp), ⟨FinMap.find?_insert_congr hag.phases _ _, ?_, hag.bridge⟩⟩
      exact fun j hj => FinMap.find?_erase_congr (hag.loop j hj) _
  | retireReplaced hb hl hp =>
      obtain rfl := hsite hl hs
      refine ⟨_, .retireReplaced ((hag.bridge _ hs).symm.trans hb) ((hag.loop _ hs).symm.trans hl)
        (hag.phase ▸ hp), ⟨hag.phases, ?_, hag.bridge⟩⟩
      exact fun j hj => FinMap.find?_erase_congr (hag.loop j hj) _

end AgreeOn

namespace Ledger

/-- What belongs to another site stays. -/
theorem Takes.agreeOn (ht : l.Takes a l') (hk : l.Known as) (ho : OneSite as) (ha : a ∈ as)
    (hs : a.site? as ≠ some s) : AgreeOn as s l' l := by
  have hne : ∀ {t}, a.site? as = some t → s ≠ t := fun ht he => hs (he ▸ ht)
  have hother : ∀ {h j t}, a.site? as = some t → handleSite? as h = some t →
      handleSite? as j = some s → j ≠ h :=
    fun ht hh hj he => hne ht (Option.some.inj ((he ▸ hj).symm.trans hh))
  cases ht with
  | begin e k hp =>
      exact ⟨FinMap.find?_insert_of_ne (hne rfl) _, fun _ _ => rfl, fun _ _ => rfl⟩
  | abort cause e k hp =>
      exact ⟨FinMap.find?_insert_of_ne (hne rfl) _, fun _ _ => rfl, fun _ _ => rfl⟩
  | abortBridge cause e k hp => exact ⟨rfl, fun _ _ => rfl, fun _ _ => rfl⟩
  | loop e k h ops kind address length hp hn =>
      have hh := handleSite?_of_loopSite? (ho.loopSite?_eq ha rfl)
      exact ⟨FinMap.find?_insert_of_ne (hne rfl) _,
        fun j hj => FinMap.find?_insert_of_ne (hother rfl hh hj) _, fun _ _ => rfl⟩
  | bridge e parent b i ops address length hl he hp =>
      have hparent := hk.loopSite? ho hl
      have hh := ho.handleSite?_eq ha rfl hparent
      exact ⟨FinMap.find?_insert_of_ne (hne hparent) _, fun _ _ => rfl,
        fun j hj => FinMap.find?_insert_of_ne (hother hparent hh hj) _⟩
  | retireBridge hb =>
      obtain ⟨t, ht⟩ := hk.bridgeSite? ho hb
      exact ⟨rfl, fun _ _ => rfl, fun j hj => FinMap.find?_erase_of_ne (hother ht ht hj)⟩
  | retireLoop hb hl hp =>
      have hh := handleSite?_of_loopSite? (hk.loopSite? ho hl)
      exact ⟨FinMap.find?_insert_of_ne (hne hh) _,
        fun j hj => FinMap.find?_erase_of_ne (hother hh hh hj), fun _ _ => rfl⟩
  | retireReplaced hb hl hp =>
      have hh := handleSite?_of_loopSite? (hk.loopSite? ho hl)
      exact ⟨rfl, fun j hj => FinMap.find?_erase_of_ne (hother hh hh hj), fun _ _ => rfl⟩

/-- Whatever is accepted concerns a site, and is counted for it. -/
theorem Takes.tally_eq (ht : l.Takes a l') (hk : l.Known as) (ho : OneSite as) :
    l'.tally = (a.entry? as l).toList.foldl (fun t x => t.add 1 x.2) l.tally := by
  cases ht with
  | begin e k hp => rfl
  | abort cause e k hp => rfl
  | abortBridge cause e k hp => rfl
  | loop e k h ops kind address length hp hn => rfl
  | bridge e parent b i ops address length hl he hp =>
      simp only [Act.entry?, Act.site?, hk.loopSite? ho hl]
      rfl
  | retireBridge hb =>
      obtain ⟨t, ht⟩ := hk.bridgeSite? ho hb
      simp only [Act.entry?, Act.site?, ht, Act.counter?, FinMap.contains, hb]
      rfl
  | retireLoop hb hl hp =>
      have hh := handleSite?_of_loopSite? (hk.loopSite? ho hl)
      simp only [Act.entry?, Act.site?, hh, Act.counter?, FinMap.contains, hb]
      rfl
  | retireReplaced hb hl hp =>
      have hh := handleSite?_of_loopSite? (hk.loopSite? ho hl)
      simp only [Act.entry?, Act.site?, hh, Act.counter?, FinMap.contains, hb]
      rfl

end Ledger

/-! ## Runs -/

theorem counted_cons_some (ht : a.step l = some l') :
    counted as l (a :: acts) = (a.entry? as l).toList ++ counted as l' acts := by
  simp only [counted, ht]

theorem counted_cons_none (ht : a.step l = none) :
    counted as l (a :: acts) = counted as l acts := by
  simp only [counted, ht]

theorem filter_entry? (s : Site) : (a.entry? as l).toList.filter (fun x => x.1 = s) =
    if a.site? as = some s then (a.entry? as l).toList else [] := by
  unfold Act.entry?
  cases hs : a.site? as with
  | none => rfl
  | some t =>
      cases hc : a.counter? l with
      | none => simp
      | some c => by_cases h : t = s <;> simp [h]

/-- On each site, a ledger agrees with one that is told of nothing else, and counts the same. -/
theorem agreeOn_foldl_perform (ho : OneSite as) (hacts : ∀ a ∈ acts, a ∈ as) (hl : l.Known as)
    (hm : m.Known as) (hag : AgreeOn as s l m) :
    AgreeOn as s (acts.foldl Ledger.perform l) ((concerning as s acts).foldl Ledger.perform m) ∧
      (counted as l acts).filter (fun x => x.1 = s) = counted as m (concerning as s acts) := by
  induction acts generalizing l m with
  | nil => exact ⟨hag, rfl⟩
  | cons a acts ih =>
      obtain ⟨ha, hacts⟩ := List.forall_mem_cons.1 hacts
      rw [List.foldl_cons]
      by_cases hs : a.site? as = some s
      · have hown : concerning as s (a :: acts) = a :: concerning as s acts :=
          List.filter_cons_of_pos (by simpa using hs)
        rw [hown, List.foldl_cons]
        cases ht : a.step l with
        | some l' =>
            have htakes := Ledger.step_eq_some_iff.1 ht
            obtain ⟨m', hm', hag'⟩ := hag.takes hl ho ha hs htakes
            rw [Ledger.perform_of_some ht, Ledger.perform_of_some hm'.step_eq, counted_cons_some ht,
              counted_cons_some hm'.step_eq, List.filter_append, filter_entry?, if_pos hs,
              hag.entry?_eq hs]
            obtain ⟨hrun, hcount⟩ := ih hacts (hl.takes ha htakes) (hm.takes ha hm') hag'
            exact ⟨hrun, congrArg _ hcount⟩
        | none =>
            have hmt : a.step m = none := by
              rw [Option.eq_none_iff_forall_ne_some]
              intro m' hmt
              obtain ⟨l', hl', -⟩ := hag.symm.takes hm ho ha hs (Ledger.step_eq_some_iff.1 hmt)
              rw [hl'.step_eq] at ht
              cases ht
            rw [Ledger.perform_of_none ht, Ledger.perform_of_none hmt, counted_cons_none ht,
              counted_cons_none hmt]
            exact ih hacts hl hm hag
      · have hother : concerning as s (a :: acts) = concerning as s acts :=
          List.filter_cons_of_neg (by simpa using hs)
        rw [hother]
        cases ht : a.step l with
        | some l' =>
            have htakes := Ledger.step_eq_some_iff.1 ht
            rw [Ledger.perform_of_some ht, counted_cons_some ht, List.filter_append, filter_entry?,
              if_neg hs, List.nil_append]
            exact ih hacts (hl.takes ha htakes) hm ((htakes.agreeOn hl ho ha hs).trans hag)
        | none =>
            rw [Ledger.perform_of_none ht, counted_cons_none ht]
            exact ih hacts hl hm hag

theorem Ledger.Known.foldl_perform (hl : l.Known as) (hacts : ∀ a ∈ acts, a ∈ as) :
    (acts.foldl Ledger.perform l).Known as := by
  induction acts generalizing l with
  | nil => exact hl
  | cons a acts ih =>
      obtain ⟨ha, hacts⟩ := List.forall_mem_cons.1 hacts
      rw [List.foldl_cons]
      cases ht : a.step l with
      | some l' =>
          rw [Ledger.perform_of_some ht]
          exact ih (hl.takes ha (Ledger.step_eq_some_iff.1 ht)) hacts
      | none =>
          rw [Ledger.perform_of_none ht]
          exact ih hl hacts

theorem tally_foldl_perform (ho : OneSite as) (hacts : ∀ a ∈ acts, a ∈ as) (hl : l.Known as) :
    (acts.foldl Ledger.perform l).tally =
      (counted as l acts).foldl (fun t x => t.add 1 x.2) l.tally := by
  induction acts generalizing l with
  | nil => rfl
  | cons a acts ih =>
      obtain ⟨ha, hacts⟩ := List.forall_mem_cons.1 hacts
      rw [List.foldl_cons]
      cases ht : a.step l with
      | some l' =>
          have htakes := Ledger.step_eq_some_iff.1 ht
          rw [Ledger.perform_of_some ht, counted_cons_some ht, List.foldl_append,
            ← htakes.tally_eq hl ho]
          exact ih hacts (hl.takes ha htakes)
      | none =>
          rw [Ledger.perform_of_none ht, counted_cons_none ht]
          exact ih hacts hl

end

/-! ## Interleavings -/

/-- What is the same for each class of a list may differ only in how the classes are interleaved. -/
theorem perm_of_filter_eq {α β : Type} [DecidableEq α] [DecidableEq β] {f : α → β} {xs ys : List α}
    (h : ∀ b, xs.filter (fun x => f x = b) = ys.filter fun x => f x = b) : xs.Perm ys := by
  rw [List.perm_iff_count]
  intro x
  have hx := congrArg (List.count x) (h (f x))
  rw [List.count_filter (by simp), List.count_filter (by simp)] at hx
  exact hx

structure Ledger.Alike (l l' : Ledger) : Prop where
  phases : ∀ s, l.phases.find? s = l'.phases.find? s
  loops : ∀ h, l.loops.find? h = l'.loops.find? h
  bridges : ∀ h, l.bridges.find? h = l'.bridges.find? h
  tally : l.tally = l'.tally

section

variable {as bs : List Act}

theorem Ledger.alike_of_agreeOn {l l' : Ledger} (ho : OneSite as) (hl : l.Known as)
    (hl' : l'.Known as) (hag : ∀ s, AgreeOn as s l l') (ht : l.tally = l'.tally) : l.Alike l' := by
  refine ⟨fun s => (hag s).phases, fun h => ?_, fun h => ?_, ht⟩
  · cases hs : handleSite? as h with
    | some s => exact (hag s).loop h hs
    | none => rw [hl.loops_eq_none ho hs, hl'.loops_eq_none ho hs]
  · cases hs : handleSite? as h with
    | some s => exact (hag s).bridge h hs
    | none => rw [hl.bridges_eq_none ho hs, hl'.bridges_eq_none ho hs]

/-- The same acts in any order, as long as it is the same for each site, end alike. -/
theorem alike_of_concerning_eq (ho : OneSite as) (hp : bs.Perm as)
    (hb : ∀ s, concerning as s bs = concerning as s as) :
    (bs.foldl Ledger.perform {}).Alike (as.foldl Ledger.perform {}) := by
  have hmem : ∀ a ∈ bs, a ∈ as := fun a ha => hp.mem_iff.1 ha
  have hknown : Ledger.Known as {} := Ledger.known_empty
  have hbs := fun s => agreeOn_foldl_perform ho hmem hknown hknown (AgreeOn.refl as s {})
  have has := fun s => agreeOn_foldl_perform ho (fun a ha => ha) hknown hknown
    (AgreeOn.refl as s {})
  have hcounted : (counted as {} bs).Perm (counted as {} as) := by
    apply perm_of_filter_eq (f := Prod.fst)
    intro s
    rw [(hbs s).2, (has s).2, hb s]
  apply Ledger.alike_of_agreeOn ho (hknown.foldl_perform hmem) (hknown.foldl_perform fun a ha => ha)
  · intro s
    have hagree := (hbs s).1
    rw [hb s] at hagree
    exact hagree.trans (has s).1.symm
  · rw [tally_foldl_perform ho hmem hknown, tally_foldl_perform ho (fun a ha => ha) hknown]
    have hcomm : RightCommutative fun (t : Tally) (x : Site × Tally.Counter) => t.add 1 x.2 :=
      ⟨fun t x y => t.add_comm x.2 y.2 1 1⟩
    exact hcounted.foldl_eq _

end

/-! ## Monitors -/

def ledgerOf (shapes : Shapes) (os : List Observer) (acts : List Act) : Ledger :=
  (Act.performAll acts (shapes, { observers := os })).2.ledger

/-- Each site lives by itself. With keys of the right shape, and whatever the observers do, the phase
of a site is the one whose story the accepted acts tell that concern it, if no handle is accepted
twice; a bridge too many for 32 bits is not accepted. And the acts of different sites may be
interleaved in any way, if no handle is announced for two of them (`oneSite_of_nodup`). -/
theorem sites_live_apart {kinds : Nat → List Green.Kind} {shapes : Shapes} (hs : Fixes kinds shapes)
    (os : List Observer) {acts : List Act} (ha : ∀ a ∈ acts, a.Fits kinds) :
    (((accepted {} acts).filterMap Act.announced?).Nodup → ∀ s,
      let own := concerning (accepted {} acts) s (accepted {} acts)
      (ledgerOf shapes os acts).phase s = own.foldl Phase.after .untouched ∧
        (∀ p, (ledgerOf shapes os acts).phase s = p ↔ p.Story own) ∧
        ((ledgerOf shapes os acts).phase s).bridges < 0x100000000) ∧
    (OneSite acts → ∀ (os' : List Observer) (acts' : List Act), acts'.Perm acts →
      (∀ s, concerning acts s acts' = concerning acts s acts) →
      (ledgerOf shapes os' acts').Alike (ledgerOf shapes os acts)) := by
  have hledger : ∀ (os : List Observer) {acts : List Act}, (∀ a ∈ acts, a.Fits kinds) →
      ledgerOf shapes os acts = acts.foldl Ledger.perform {} :=
    fun os _ ha => Act.ledger_performAll hs ha
  rw [hledger os ha]
  constructor
  · intro hn s own
    have hphase := Ledger.phase_foldl_perform hn Ledger.known_empty (fun a h => h) s
    refine ⟨hphase, fun p => ?_, Ledger.countsFit_empty.foldl_perform acts s⟩
    rw [hphase]
    exact foldl_after_iff
  · intro ho os' acts' hp hown
    rw [hledger os' fun a h => ha a (hp.mem_iff.1 h)]
    exact alike_of_concerning_eq ho hp hown

/-- A position that is compiled, with a bridge, while the attempt for another one is given up. -/
def twoLines : List Act :=
  let e : EntryPoint := ⟨0, "line", ["pc"], []⟩
  [.report (.begin e ⟨[.int 1]⟩), .report (.begin e ⟨[.int 2]⟩),
    .report (.loop e ⟨[.int 1]⟩ ⟨1⟩ [] .loop 0 0), .report (.abort .tooLong e ⟨[.int 2]⟩),
    .report (.abort .escape e ⟨[.int 2]⟩), .report (.bridge e ⟨1⟩ ⟨2⟩ 0 [] 0 0), .retire ⟨2⟩,
    .report (.begin e ⟨[.int 2]⟩)]

def lineSite (n : Int) : Site := ⟨0, ⟨[.int n]⟩⟩

/-- The two positions one behind the other. -/
theorem sites_live_apart_lines :
    let l := ledgerOf ∅ [] twoLines
    l.phase (lineSite 1) = .bridged ⟨1⟩ 1 ∧ Phase.Story
      (concerning (accepted {} twoLines) (lineSite 1) (accepted {} twoLines)) (.bridged ⟨1⟩ 1) ∧
    l.phase (lineSite 2) = .compiling ∧ ∀ os, (ledgerOf ∅ os
      (concerning twoLines (lineSite 2) twoLines ++ concerning twoLines (lineSite 1) twoLines)).Alike
        l := by
  intro l
  have hshapes : Fixes (fun _ => [.int]) ∅ := fun e fixed hf => nomatch hf
  have hfits : ∀ a ∈ twoLines, a.Fits fun _ => [.int] := by
    intro a ha e k hk
    simp only [twoLines, List.mem_cons, List.not_mem_nil, or_false] at ha
    rcases ha with rfl | rfl | rfl | rfl | rfl | rfl | rfl | rfl <;> cases hk <;> exact ⟨rfl, rfl⟩
  have hnodup : ((accepted {} twoLines).filterMap Act.announced?).Nodup := by decide +kernel
  have honce : (twoLines.filterMap Act.announced?).Nodup := by decide
  obtain ⟨hlives, halike⟩ := sites_live_apart hshapes [] hfits
  have hone : l.phase (lineSite 1) = .bridged ⟨1⟩ 1 := by decide +kernel
  refine ⟨hone, ((hlives hnodup (lineSite 1)).2.1 _).1 hone, by decide +kernel, fun os => ?_⟩
  have hperm : (concerning twoLines (lineSite 2) twoLines ++
      concerning twoLines (lineSite 1) twoLines).Perm twoLines := by
    have hrest : concerning twoLines (lineSite 1) twoLines =
        twoLines.filter fun a => !decide (a.site? twoLines = some (lineSite 2)) := rfl
    rw [hrest]
    exact List.filter_append_perm ..
  have hsites : ∀ a ∈ twoLines, a.site? twoLines = some (lineSite 1) ∨
      a.site? twoLines = some (lineSite 2) := by
    intro a ha
    simp only [twoLines, List.mem_cons, List.not_mem_nil, or_false] at ha
    rcases ha with rfl | rfl | rfl | rfl | rfl | rfl | rfl | rfl
    all_goals first | exact .inl rfl | exact .inr rfl
  refine halike (oneSite_of_nodup honce) os _ hperm fun s => ?_
  by_cases h1 : s = lineSite 1
  · subst h1
    rfl
  · by_cases h2 : s = lineSite 2
    · subst h2
      rfl
    · have hnone : ∀ a ∈ twoLines, ¬ decide (a.site? twoLines = some s) = true := by
        intro a ha hs
        rcases hsites a ha with he | he <;> rw [he, decide_eq_true_eq, Option.some.injEq] at hs
        · exact h1 hs.symm
        · exact h2 hs.symm
      have hbs := List.filter_eq_nil_iff.2 fun a ha => hnone a (hperm.mem_iff.1 ha)
      exact hbs.trans (List.filter_eq_nil_iff.2 hnone).symm

end Lifecycle

end HotLoop
