import Mathlib.Tactic
import HotLoop.Lifecycle.Monitor

/-!
# What the reports do to the ledger

`Ledger.Sound` ties the parts of a ledger to one another: a handle is announced as a loop or as a
bridge, and the live loop in the phase of a site is the loop announced for it. Under this invariant
each report is accepted in the phases that it is meant for, and what it changes is said through the
three maps; only a loop whose bridges can no longer be counted is refused one more. `Ledger.Coherent`
is as much of it as holds where a site with a live loop may be compiled again; to forget artifacts
takes no more. Observers may end a report with a fault, but they cannot change what they decide by.
-/

namespace HotLoop.Lifecycle

open Trace

def Phase.bridges : Phase → Nat
  | .bridged _ n => n
  | _ => 0

/-- One more bridge can be counted. -/
def Phase.Room (p : Phase) : Prop := p.bridges + 1 < 0x100000000

instance (p : Phase) : Decidable p.Room := inferInstanceAs (Decidable (_ < _))

namespace Phase

def without (hs : List Handle) (p : Phase) : Phase :=
  match p.liveLoop? with
  | some h => if h ∈ hs then .retired h else p
  | none => p

variable {p : Phase} {h : Handle} {hs : List Handle}

theorem without_of_not_mem (hn : ∀ h ∈ hs, p.liveLoop? ≠ some h) : p.without hs = p := by
  unfold without
  cases hp : p.liveLoop? with
  | none => rfl
  | some j => exact if_neg fun hj => hn j hj hp

theorem without_of_mem (hp : p.liveLoop? = some h) (hh : h ∈ hs) : p.without hs = .retired h := by
  simp only [without, hp, hh, if_true]

/-- A phase is the same as before, or its live loop was retired. -/
theorem without_cases (p : Phase) (hs : List Handle) :
    (∀ h ∈ hs, p.liveLoop? ≠ some h) ∧ p.without hs = p ∨
      ∃ h ∈ hs, p.liveLoop? = some h ∧ p.without hs = .retired h := by
  by_cases hn : ∀ h ∈ hs, p.liveLoop? ≠ some h
  · exact Or.inl ⟨hn, without_of_not_mem hn⟩
  · push Not at hn
    obtain ⟨h, hh, hp⟩ := hn
    exact Or.inr ⟨h, hh, hp, without_of_mem hp hh⟩

theorem liveLoop?_without_eq_some_iff :
    (p.without hs).liveLoop? = some h ↔ p.liveLoop? = some h ∧ h ∉ hs := by
  rcases p.without_cases hs with ⟨hn, he⟩ | ⟨j, hj, hp, he⟩
  · rw [he]
    exact (and_iff_left_of_imp fun hp hh => hn h hh hp).symm
  · rw [he, hp]
    refine iff_of_false (by simp [liveLoop?]) ?_
    rintro ⟨he, hh⟩
    exact hh (Option.some.inj he ▸ hj)

/-- Retiring ends no attempt and begins none. -/
theorem without_eq_iff {q : Phase} (hq : q.liveLoop? = none) (hr : ∀ h, q ≠ .retired h) :
    p.without hs = q ↔ p = q := by
  rcases p.without_cases hs with ⟨-, he⟩ | ⟨j, -, hp, he⟩
  · rw [he]
  · rw [he]
    refine iff_of_false (hr j).symm ?_
    rintro rfl
    rw [hq] at hp
    cases hp

theorem without_cons (p : Phase) (h : Handle) (hs : List Handle) :
    p.without (h :: hs) = (if p.liveLoop? = some h then .retired h else p).without hs := by
  split_ifs with hp
  · exact without_of_mem hp List.mem_cons_self
  · unfold without
    cases hl : p.liveLoop? with
    | none => rfl
    | some j =>
        have hj : j ≠ h := fun hj => hp (hl.trans (congrArg some hj))
        simp only [List.mem_cons, hj, false_or]

end Phase

namespace Ledger

structure Sound (l : Ledger) : Prop where
  disjoint : ∀ h, l.bridges.find? h ≠ none → l.loops.find? h = none
  live_iff : ∀ s h, (l.phase s).liveLoop? = some h ↔ l.loops.find? h = some s

/-- A handle is announced as a loop or as a bridge, and a live loop is announced for its site. There
may be announced loops that are not live any more. -/
structure Coherent (l : Ledger) : Prop where
  disjoint : ∀ h, l.bridges.find? h ≠ none → l.loops.find? h = none
  loop_of_live : ∀ s h, (l.phase s).liveLoop? = some h → l.loops.find? h = some s

theorem Sound.coherent {l : Ledger} (hl : l.Sound) : l.Coherent :=
  ⟨hl.disjoint, fun s h => (hl.live_iff s h).1⟩

def forget (l : Ledger) (h : Handle) : Ledger := (l.retire? h).getD l

theorem phase_insert (l : Ledger) (s s' : Site) (p : Phase) :
    (l.phases.insert s p).findD s' .untouched = if s' = s then p else l.phase s' :=
  FinMap.findD_insert l.phases s s' p .untouched

section Forget

variable {l : Ledger} {h p : Handle} {s : Site}

theorem forget_of_bridge (hb : l.bridges.find? h = some p) :
    l.forget h =
      { l with bridges := l.bridges.erase h, tally := l.tally.add 1 .bridgesRetired } := by
  simp only [forget, retire?, FinMap.contains, hb, Option.isSome_some, if_true, Option.getD_some]

theorem forget_of_loop (hb : l.bridges.find? h = none) (hs : l.loops.find? h = some s)
    (hl : (l.phase s).liveLoop? = some h) :
    l.forget h =
      { l with
        phases := l.phases.insert s (.retired h)
        loops := l.loops.erase h
        tally := l.tally.add 1 .loopsRetired } := by
  simp only [forget, retire?, FinMap.contains, hb, hs, hl, Option.isSome_none, Bool.false_eq_true,
    if_false, if_true, Option.map_some, Option.getD_some]

theorem forget_of_replaced (hb : l.bridges.find? h = none) (hs : l.loops.find? h = some s)
    (hl : (l.phase s).liveLoop? ≠ some h) :
    l.forget h = { l with loops := l.loops.erase h, tally := l.tally.add 1 .loopsRetired } := by
  simp only [forget, retire?, FinMap.contains, hb, hs, hl, Option.isSome_none, Bool.false_eq_true,
    if_false, Option.map_some, Option.getD_some]

theorem forget_of_none (hb : l.bridges.find? h = none) (hs : l.loops.find? h = none) :
    l.forget h = l := by
  simp only [forget, retire?, FinMap.contains, hb, hs, Option.isSome_none, Bool.false_eq_true,
    if_false, Option.map_none, Option.getD_none]

end Forget

theorem find?_of_none {κ α : Type} [DecidableEq κ] {m : FinMap κ α} {k : κ} (hk : m.find? k = none)
    (j : κ) : m.find? j = if j = k then none else m.find? j := by
  split_ifs with hj
  · rw [hj, hk]
  · rfl

/-- Forgetting a handle takes it out of both maps, and a site whose live loop it is counts as
retired. -/
theorem find?_forget {l : Ledger} (hl : l.Coherent) (h : Handle) :
    (∀ b, (l.forget h).bridges.find? b = if b = h then none else l.bridges.find? b) ∧
      (∀ j, (l.forget h).loops.find? j = if j = h then none else l.loops.find? j) ∧
      ∀ s, (l.forget h).phase s =
        if (l.phase s).liveLoop? = some h then .retired h else l.phase s := by
  have hnot : l.loops.find? h = none → ∀ s, (l.phase s).liveLoop? ≠ some h := by
    intro hn s hlive
    rw [hl.loop_of_live s h hlive] at hn
    cases hn
  cases hb : l.bridges.find? h with
  | some p =>
      have hn : l.loops.find? h = none := hl.disjoint h (by simp [hb])
      rw [forget_of_bridge hb]
      refine ⟨fun b => FinMap.find?_erase l.bridges h b, find?_of_none hn, fun s => ?_⟩
      rw [if_neg (hnot hn s)]
      rfl
  | none =>
      cases hs : l.loops.find? h with
      | none =>
          rw [forget_of_none hb hs]
          refine ⟨find?_of_none hb, find?_of_none hs, fun s => ?_⟩
          rw [if_neg (hnot hs s)]
      | some site =>
          have hother : ∀ s, s ≠ site → (l.phase s).liveLoop? ≠ some h := fun s hss hlive =>
            hss (Option.some.inj ((hl.loop_of_live s h hlive).symm.trans hs))
          by_cases hlive : (l.phase site).liveLoop? = some h
          · rw [forget_of_loop hb hs hlive]
            refine ⟨find?_of_none hb, fun j => FinMap.find?_erase l.loops h j, fun s => ?_⟩
            refine (phase_insert l site s (.retired h)).trans ?_
            by_cases hss : s = site
            · rw [if_pos hss, if_pos (hss ▸ hlive)]
            · rw [if_neg hss, if_neg (hother s hss)]
          · rw [forget_of_replaced hb hs hlive]
            refine ⟨find?_of_none hb, fun j => FinMap.find?_erase l.loops h j, fun s => ?_⟩
            have hnone : (l.phase s).liveLoop? ≠ some h := by
              by_cases hss : s = site
              · rw [hss]
                exact hlive
              · exact hother s hss
            rw [if_neg hnone]
            rfl

theorem Coherent.forget {l : Ledger} (hl : l.Coherent) (h : Handle) : (l.forget h).Coherent := by
  obtain ⟨hb, hj, hs⟩ := find?_forget hl h
  constructor
  case disjoint =>
    intro j hbj
    rw [hb] at hbj
    rw [hj]
    split_ifs at hbj ⊢ with hjh
    · rfl
    · exact hl.disjoint j hbj
  case loop_of_live =>
    intro s j hlive
    rw [hs] at hlive
    split_ifs at hlive with hsh
    · cases hlive
    · have hjh : j ≠ h := fun he => hsh (he ▸ hlive)
      rw [hj, if_neg hjh]
      exact hl.loop_of_live s j hlive

theorem Sound.forget {l : Ledger} (hl : l.Sound) (h : Handle) : (l.forget h).Sound := by
  obtain ⟨-, hj, hs⟩ := find?_forget hl.coherent h
  refine ⟨(hl.coherent.forget h).disjoint, fun s j => ?_⟩
  rw [hs, hj]
  by_cases hjh : j = h
  · subst hjh
    rw [if_pos rfl]
    split_ifs with hlive
    · simp [Phase.liveLoop?]
    · simp [hlive]
  · rw [if_neg hjh, ← hl.live_iff]
    split_ifs with hlive
    · rw [hlive]
      simp [Phase.liveLoop?, Ne.symm hjh]
    · rfl

theorem Coherent.foldl_forget (hs : List Handle) {l : Ledger} (hl : l.Coherent) :
    (hs.foldl Ledger.forget l).Coherent := by
  induction hs generalizing l with
  | nil => exact hl
  | cons h hs ih => exact ih (hl.forget h)

theorem Sound.foldl_forget (hs : List Handle) {l : Ledger} (hl : l.Sound) :
    (hs.foldl Ledger.forget l).Sound := by
  induction hs generalizing l with
  | nil => exact hl
  | cons h hs ih => exact ih (hl.forget h)

/-- The site was compiled at some time and is not being compiled. -/
def Settled (p : Phase) : Prop := p ≠ .untouched ∧ p ≠ .aborted ∧ p ≠ .compiling

theorem find?_foldl_forget (hs : List Handle) {l : Ledger} (hl : l.Coherent) :
    (∀ b, (hs.foldl forget l).bridges.find? b = if b ∈ hs then none else l.bridges.find? b) ∧
      (∀ j, (hs.foldl forget l).loops.find? j = if j ∈ hs then none else l.loops.find? j) ∧
      ∀ s, (hs.foldl forget l).phase s = (l.phase s).without hs := by
  induction hs generalizing l with
  | nil =>
      refine ⟨by simp, by simp, fun s => (Phase.without_of_not_mem ?_).symm⟩
      exact List.forall_mem_nil _
  | cons h hs ih =>
      obtain ⟨hb, hj, hp⟩ := find?_forget hl h
      obtain ⟨hb', hj', hp'⟩ := ih (hl.forget h)
      refine ⟨fun b => ?_, fun j => ?_, fun s => ?_⟩
      · rw [List.foldl_cons, hb', hb]
        by_cases hbh : b = h <;> simp [hbh]
      · rw [List.foldl_cons, hj', hj]
        by_cases hjh : j = h <;> simp [hjh]
      · rw [List.foldl_cons, hp', hp, Phase.without_cons]

/-- Forgetting begins no attempt and ends none. -/
theorem foldl_forget_spec (hs : List Handle) {l : Ledger} (hl : l.Sound) :
    (hs.foldl forget l).Sound ∧
      (∀ b, (hs.foldl forget l).bridges.find? b = if b ∈ hs then none else l.bridges.find? b) ∧
      (∀ j, (hs.foldl forget l).loops.find? j = if j ∈ hs then none else l.loops.find? j) ∧
      (∀ s, (hs.foldl forget l).phase s = .compiling ↔ l.phase s = .compiling) ∧
      ∀ s, Settled (l.phase s) → Settled ((hs.foldl forget l).phase s) := by
  obtain ⟨hb, hj, hp⟩ := find?_foldl_forget hs hl.coherent
  refine ⟨hl.foldl_forget hs, hb, hj, fun s => ?_, fun s ⟨hu, ha, hc⟩ => ?_⟩
  · rw [hp]
    exact Phase.without_eq_iff rfl (by simp)
  · rw [hp]
    exact ⟨(Phase.without_eq_iff rfl (by simp)).not.2 hu,
      (Phase.without_eq_iff rfl (by simp)).not.2 ha,
      (Phase.without_eq_iff rfl (by simp)).not.2 hc⟩

/-! ## Reports -/

variable {l : Ledger} {e : EntryPoint} {k : Key}

theorem begin_eq_ok_iff {l' : Ledger} : l.begin e k = .ok l' ↔ l.phase (e.site k) ≠ .compiling ∧
    l' = { l with phases := l.phases.insert (e.site k) .compiling } := by
  unfold begin
  by_cases hc : l.phase (e.site k) = .compiling
  · simp [hc]
  · simp [hc, eq_comm]

theorem abort_eq_ok_iff {cause : Abort} {l' : Ledger} : l.abort cause e k = .ok l' ↔
    l.phase (e.site k) = .compiling ∧ l' =
      { l with
        phases := l.phases.insert (e.site k) .aborted
        tally := l.tally.add 1 (.aborts cause) } ∨
    Settled (l.phase (e.site k)) ∧ l' = { l with tally := l.tally.add 1 (.aborts cause) } := by
  unfold abort Settled
  cases l.phase (e.site k) <;> simp [eq_comm]

theorem announceLoop_eq_ok_iff {h : Handle} {l' : Ledger} : l.announceLoop e k h = .ok l' ↔
    l.phase (e.site k) = .compiling ∧ l.loops.find? h = none ∧ l' =
      { l with
        phases := l.phases.insert (e.site k) (.compiled h)
        loops := l.loops.insert h (e.site k)
        tally := l.tally.add 1 .loopsCompiled } := by
  unfold announceLoop
  by_cases hc : l.phase (e.site k) = .compiling
  · cases hj : l.loops.find? h with
    | none => simp [hc, FinMap.contains, hj, eq_comm]
    | some s => simp [hc, FinMap.contains, hj]
  · simp [hc]

theorem announceBridge_eq_ok_iff {parent b : Handle} {l' : Ledger} :
    l.announceBridge e parent b = .ok l' ↔ ∃ s p, l.loops.find? parent = some s ∧
      s.entry = e.id ∧ bridgedPhase b parent (l.phase s) = .ok p ∧ l' =
        { l with
          phases := l.phases.insert s p
          bridges := l.bridges.insert b parent
          tally := l.tally.add 1 .bridgesCompiled } := by
  unfold announceBridge
  cases hs : l.loops.find? parent with
  | none => simp
  | some s =>
      by_cases he : s.entry = e.id
      · cases hp : bridgedPhase b parent (l.phase s) with
        | error f => simp [he, hp, Except.map]
        | ok p => simp [he, hp, Except.map, eq_comm]
      · simp [he]

/-- Putting a site that has no live loop into another phase without one. -/
theorem Sound.of_phase {l' : Ledger} {s : Site} {p : Phase} (hl : l.Sound)
    (hlive : (l.phase s).liveLoop? = none) (hp : p.liveLoop? = none) (hloops : l'.loops = l.loops)
    (hbridges : l'.bridges = l.bridges)
    (hphase : ∀ s', l'.phase s' = if s' = s then p else l.phase s') : l'.Sound where
  disjoint := fun h hb => by
    rw [hbridges] at hb
    rw [hloops]
    exact hl.disjoint h hb
  live_iff := fun s' h => by
    rw [hphase, hloops, ← hl.live_iff]
    split_ifs with hs
    · rw [hs, hp, hlive]
    · rfl

theorem begin_spec (hl : l.Sound) (hc : l.phase (e.site k) ≠ .compiling)
    (hlive : (l.phase (e.site k)).liveLoop? = none) :
    ∃ l', l.begin e k = .ok l' ∧ l'.Sound ∧ l'.loops = l.loops ∧ l'.bridges = l.bridges ∧
      ∀ s, l'.phase s = if s = e.site k then .compiling else l.phase s := by
  have hphase := phase_insert l (e.site k)
  refine ⟨{ l with phases := l.phases.insert (e.site k) .compiling }, ?_, ?_, rfl, rfl,
    fun s => hphase s .compiling⟩
  · exact begin_eq_ok_iff.2 ⟨hc, rfl⟩
  · exact hl.of_phase hlive (p := .compiling) rfl rfl rfl fun s => hphase s .compiling

theorem abort_compiling (cause : Abort) (hl : l.Sound) (hc : l.phase (e.site k) = .compiling) :
    ∃ l', l.abort cause e k = .ok l' ∧ l'.Sound ∧ l'.loops = l.loops ∧ l'.bridges = l.bridges ∧
      ∀ s, l'.phase s = if s = e.site k then .aborted else l.phase s := by
  have hphase := phase_insert l (e.site k)
  refine ⟨{ l with
      phases := l.phases.insert (e.site k) .aborted
      tally := l.tally.add 1 (.aborts cause) }, ?_, ?_, rfl, rfl, fun s => hphase s .aborted⟩
  · exact abort_eq_ok_iff.2 (Or.inl ⟨hc, rfl⟩)
  · refine hl.of_phase (s := e.site k) ?_ (p := .aborted) rfl rfl rfl fun s => hphase s .aborted
    rw [hc]
    rfl

theorem abort_settled (cause : Abort) (hs : Settled (l.phase (e.site k))) :
    l.abort cause e k = .ok { l with tally := l.tally.add 1 (.aborts cause) } :=
  abort_eq_ok_iff.2 (Or.inr ⟨hs, rfl⟩)

theorem announceLoop_spec {h : Handle} (hl : l.Sound) (hc : l.phase (e.site k) = .compiling)
    (hj : l.loops.find? h = none) (hb : l.bridges.find? h = none) :
    ∃ l', l.announceLoop e k h = .ok l' ∧ l'.Sound ∧ l'.bridges = l.bridges ∧
      (∀ j, l'.loops.find? j = if j = h then some (e.site k) else l.loops.find? j) ∧
      ∀ s, l'.phase s = if s = e.site k then .compiled h else l.phase s := by
  have hloops := fun j => FinMap.find?_insert l.loops h j (e.site k)
  have hphase := fun s => phase_insert l (e.site k) s (.compiled h)
  refine ⟨{ l with
      phases := l.phases.insert (e.site k) (.compiled h)
      loops := l.loops.insert h (e.site k)
      tally := l.tally.add 1 .loopsCompiled }, ?_, ⟨fun j hbj => ?_, fun s j => ?_⟩, rfl, hloops,
    hphase⟩
  · exact announceLoop_eq_ok_iff.2 ⟨hc, hj, rfl⟩
  · refine (hloops j).trans ?_
    split_ifs with hjh
    · rw [hjh] at hbj
      exact absurd hb hbj
    · exact hl.disjoint j hbj
  · change ((l.phases.insert (e.site k) (.compiled h)).findD s .untouched).liveLoop? = some j ↔
      (l.loops.insert h (e.site k)).find? j = some s
    rw [hphase, hloops]
    have hnone : ∀ j, l.loops.find? j ≠ some (e.site k) := by
      intro j hj'
      have hlive := (hl.live_iff _ j).2 hj'
      rw [hc] at hlive
      cases hlive
    by_cases hs : s = e.site k
    · rw [if_pos hs, hs]
      by_cases hjh : j = h
      · simp [hjh, Phase.liveLoop?]
      · rw [if_neg hjh]
        refine iff_of_false (fun he => hjh (Option.some.inj he).symm) (hnone j)
    · rw [if_neg hs, hl.live_iff]
      by_cases hjh : j = h
      · rw [hjh, hj, if_pos rfl]
        simp [Ne.symm hs]
      · rw [if_neg hjh]

theorem bridgedPhase_eq_ok_iff {b parent : Handle} {p p' : Phase} :
    bridgedPhase b parent p = .ok p' ↔
      p.liveLoop? = some parent ∧ p.Room ∧ p' = .bridged parent (p.bridges + 1) := by
  cases p with
  | compiled h =>
      rw [bridgedPhase, Phase.liveLoop?, Option.some.injEq]
      by_cases he : h = parent
      · simp [he, Phase.Room, Phase.bridges, eq_comm]
      · simp [he]
  | bridged h n =>
      rw [bridgedPhase, Phase.liveLoop?, Option.some.injEq, Phase.Room, Phase.bridges]
      by_cases he : h = parent
      · by_cases hn : n + 1 < 0x100000000
        · simp [he, hn, nextCount, Except.map, eq_comm]
        · simp [he, hn, nextCount, Except.map]
      · simp [he]
  | _ => simp [bridgedPhase, Phase.liveLoop?]

/-- A bridge is refused since its loop is not live or since its bridges can no longer be counted. -/
theorem fault_of_bridgedPhase {b parent : Handle} {p : Phase} {f : Fault}
    (h : bridgedPhase b parent p = .error f) :
    f = .deadParent b parent p ∨ f = .countOverflow := by
  cases p with
  | bridged j n =>
      by_cases hj : j = parent
      · cases hn : nextCount n with
        | ok m => simp [bridgedPhase, hj, hn, Except.map] at h
        | error f' =>
            simp only [bridgedPhase, hj, hn, Except.map, if_true, Except.error.injEq] at h
            exact Or.inr (h ▸ (nextCount_eq_error_iff.1 hn).2)
      · simp only [bridgedPhase, if_neg hj, Except.error.injEq] at h
        exact Or.inl h.symm
  | compiled j =>
      by_cases hj : j = parent
      · simp [bridgedPhase, hj] at h
      · simp only [bridgedPhase, if_neg hj, Except.error.injEq] at h
        exact Or.inl h.symm
  | _ => exact Or.inl (Except.error.inj h).symm

/-- The loop is live, but its bridges can no longer be counted. -/
theorem bridgedPhase_of_full {b parent : Handle} {p : Phase} (hl : p.liveLoop? = some parent)
    (hp : ¬ p.Room) : bridgedPhase b parent p = .error .countOverflow := by
  cases p with
  | bridged h n =>
      obtain rfl := Option.some.inj hl
      have hn : ¬ n + 1 < 0x100000000 := hp
      simp [bridgedPhase, nextCount, hn, Except.map]
  | compiled h => exact absurd (Nat.lt_of_sub_eq_succ rfl) hp
  | _ => cases hl

theorem announceBridge_of_full {b parent : Handle} {s : Site} (hl : l.Sound)
    (hs : l.loops.find? parent = some s) (he : s.entry = e.id) (hr : ¬ (l.phase s).Room) :
    l.announceBridge e parent b = .error .countOverflow := by
  have hp := bridgedPhase_of_full (b := b) ((hl.live_iff s parent).2 hs) hr
  simp [announceBridge, hs, he, hp, Except.map]

theorem announceBridge_spec {b parent : Handle} {s : Site} (hl : l.Sound)
    (hs : l.loops.find? parent = some s) (he : s.entry = e.id) (hb : l.loops.find? b = none)
    (hr : (l.phase s).Room) :
    ∃ l' n, l.announceBridge e parent b = .ok l' ∧ l'.Sound ∧ l'.loops = l.loops ∧
      (∀ j, l'.bridges.find? j = if j = b then some parent else l.bridges.find? j) ∧
      ∀ s', l'.phase s' = if s' = s then .bridged parent n else l.phase s' := by
  have hlive := (hl.live_iff s parent).2 hs
  obtain ⟨n, hn⟩ : ∃ n, bridgedPhase b parent (l.phase s) = .ok (.bridged parent n) :=
    ⟨_, bridgedPhase_eq_ok_iff.2 ⟨hlive, hr, rfl⟩⟩
  have hphase := fun s' => phase_insert l s s' (.bridged parent n)
  have hbridges := fun j => FinMap.find?_insert l.bridges b j parent
  refine ⟨{ l with
      phases := l.phases.insert s (.bridged parent n)
      bridges := l.bridges.insert b parent
      tally := l.tally.add 1 .bridgesCompiled }, n, ?_, ⟨fun j hbj => ?_, fun s' j => ?_⟩, rfl,
    hbridges, hphase⟩
  · exact announceBridge_eq_ok_iff.2 ⟨s, _, hs, he, hn, rfl⟩
  · by_cases hjb : j = b
    · rw [hjb]
      exact hb
    · rw [hbridges, if_neg hjb] at hbj
      exact hl.disjoint j hbj
  · change ((l.phases.insert s (.bridged parent n)).findD s' .untouched).liveLoop? = some j ↔
      l.loops.find? j = some s'
    rw [hphase, ← hl.live_iff]
    split_ifs with hss
    · rw [hss, hlive]
      rfl
    · rfl

end Ledger

theorem Monitor.fst_retire (m : Monitor) (h : Handle) :
    (m.retire h).1 = { m with ledger := m.ledger.forget h } := by
  unfold retire Ledger.forget
  cases m.ledger.retire? h <;> rfl

/-! ## Observers -/

def Monitor.Quiet (m : Monitor) : Prop := ∀ o ∈ m.observers, ∀ inbox d, o.fails inbox d = false

theorem Observer.fails_deliver (d : Delivery) (os : List Observer) :
    ∀ o' ∈ (deliver d os).1, ∃ o ∈ os, o'.fails = o.fails := by
  induction os with
  | nil => exact fun o' ho' => absurd ho' List.not_mem_nil
  | cons o os ih =>
      intro o' ho'
      unfold deliver at ho'
      split_ifs at ho' with hf
      · rcases List.mem_cons.1 ho' with rfl | ho'
        · exact ⟨o, List.mem_cons_self, rfl⟩
        · exact ⟨o', List.mem_cons_of_mem _ ho', rfl⟩
      · rcases List.mem_cons.1 ho' with rfl | ho'
        · exact ⟨o, List.mem_cons_self, rfl⟩
        · obtain ⟨o₁, ho₁, he⟩ := ih o' ho'
          exact ⟨o₁, List.mem_cons_of_mem _ ho₁, he⟩

theorem Observer.deliver_quiet (d : Delivery) {os : List Observer}
    (h : ∀ o ∈ os, ∀ inbox d, o.fails inbox d = false) : (deliver d os).2 = true := by
  induction os with
  | nil => rfl
  | cons o os ih =>
      have ho := h o List.mem_cons_self o.inbox d
      have hos := ih fun o' ho' => h o' (List.mem_cons_of_mem _ ho')
      simp only [deliver, ho, Bool.false_eq_true, if_false]
      exact hos

end HotLoop.Lifecycle
