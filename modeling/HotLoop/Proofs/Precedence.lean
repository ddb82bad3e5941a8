import HotLoop.Proofs.Acceptance
import HotLoop.Proofs.Lifecycles

/-!
# Loops before their bridges

`Stands` tells of a loop by what was accepted: it was announced for its site, and neither retired,
nor replaced, nor has another attempt begun there. Where no handle serves both as a loop and as a
bridge, a bridge is accepted just for a loop that stands.
-/

namespace HotLoop.Lifecycle

open Trace

def Act.BeginsAt (s : Site) : Act → Prop
  | .report (.begin e k) => e.site k = s
  | _ => False

structure Act.Spares (h : Handle) (s : Site) (x : Act) : Prop where
  retire : x ≠ .retire h
  begins : ¬ x.BeginsAt s
  loop : ∀ j t, x.loop? = some (j, t) → j ≠ h ∧ t ≠ s

/-- The loop `h` was announced for the site `s`. Since this, its last announcement, it was not
retired, no other loop was announced for the site, and no attempt has begun there. -/
def Stands (acts : List Act) (h : Handle) (s : Site) : Prop :=
  ∃ past a rest, acts = past ++ a :: rest ∧ a.loop? = some (h, s) ∧ ∀ x ∈ rest, x.Spares h s

def Act.bridged? (a : Act) : Option Handle := a.bridge?.map Prod.fst

/-- No handle is announced both as a loop and as a bridge. -/
def LoopsApart (acts : List Act) : Prop :=
  ∀ h ∈ acts.filterMap Act.compiled?, h ∉ acts.filterMap Act.bridged?

instance (acts : List Act) : Decidable (LoopsApart acts) :=
  inferInstanceAs (Decidable (∀ h ∈ acts.filterMap Act.compiled?, h ∉ acts.filterMap Act.bridged?))

section

variable {acts rest : List Act} {a x : Act} {l l' : Ledger} {h : Handle} {s : Site}

theorem LoopsApart.of_append {past : List Act} (ho : LoopsApart (past ++ rest)) :
    LoopsApart past := by
  intro h hc hb
  apply ho h <;> rw [List.filterMap_append]
  · exact List.mem_append_left _ hc
  · exact List.mem_append_left _ hb

theorem Stands.concat (hs : Stands acts h s) (hx : x.Spares h s) : Stands (acts ++ [x]) h s := by
  obtain ⟨past, a, rest, he, ha, hrest⟩ := hs
  exact ⟨past, a, rest ++ [x], concat_eq he, ha, forall_mem_concat hrest hx⟩

theorem stands_of_loop? (past : List Act) (ha : a.loop? = some (h, s)) :
    Stands (past ++ [a]) h s :=
  ⟨past, a, [], rfl, ha, List.forall_mem_nil _⟩

namespace Ledger

theorem Behind.known (hl : Behind acts l) {all : List Act} (hall : ∀ a ∈ acts, a ∈ all) :
    l.Known all := by
  induction hl with
  | nil => exact known_empty
  | concat hl ha ih =>
      have hmem := ih fun a h => hall a (List.mem_append_left _ h)
      exact hmem.takes (hall _ (List.mem_append_right _ List.mem_cons_self)) ha

/-- A live loop stays what it is, or the act was one that announces it. -/
theorem Takes.spares (ht : l.Takes x l') (hb : l.loops.find? h = some s → l.bridges.find? h = none)
    (hloop : l'.loops.find? h = some s) (hlive : (l'.phase s).liveLoop? = some h) :
    x.loop? = some (h, s) ∨
      l.loops.find? h = some s ∧ (l.phase s).liveLoop? = some h ∧ x.Spares h s := by
  cases ht with
  | begin e k hp =>
      rw [Ledger.phase, phase_insert l] at hlive
      split_ifs at hlive with hs
      · cases hlive
      · exact Or.inr ⟨hloop, hlive, nofun, fun he => hs he.symm, nofun⟩
  | abort cause e k hp =>
      rw [Ledger.phase, phase_insert l] at hlive
      split_ifs at hlive with hs
      · cases hlive
      · exact Or.inr ⟨hloop, hlive, nofun, id, nofun⟩
  | abortBridge cause e k hp => exact Or.inr ⟨hloop, hlive, nofun, id, nofun⟩
  | loop e k j ops kind address length hp hn =>
      rw [Ledger.phase, phase_insert l] at hlive
      rw [FinMap.find?_insert] at hloop
      by_cases hj : h = j
      · rw [if_pos hj] at hloop
        rw [hj, ← Option.some.inj hloop]
        exact Or.inl rfl
      · rw [if_neg hj] at hloop
        split_ifs at hlive with hs
        · exact absurd (Option.some.inj hlive).symm hj
        · refine Or.inr ⟨hloop, hlive, nofun, id, fun i t ht => ?_⟩
          cases ht
          exact ⟨Ne.symm hj, Ne.symm hs⟩
  | bridge e parent b i ops address length hs he hp =>
      rw [Ledger.phase, phase_insert l] at hlive
      refine Or.inr ⟨hloop, ?_, nofun, id, nofun⟩
      split_ifs at hlive with hst
      · obtain ⟨hold, -, rfl⟩ := bridgedPhase_eq_ok_iff.1 hp
        obtain rfl := Option.some.inj hlive
        rw [hst]
        exact hold
      · exact hlive
  | @retireBridge j p hj =>
      refine Or.inr ⟨hloop, hlive, ?_, id, nofun⟩
      rintro he
      cases he
      rw [hb hloop] at hj
      cases hj
  | retireLoop hb' hs hp =>
      rw [Ledger.phase, phase_insert l] at hlive
      rw [FinMap.find?_erase] at hloop
      split_ifs at hloop hlive with hj hst
      · cases hlive
      · exact Or.inr ⟨hloop, hlive, fun he => hj (Act.retire.inj he).symm, id, nofun⟩
  | retireReplaced hb' hs hp =>
      rw [FinMap.find?_erase] at hloop
      split_ifs at hloop with hj
      exact Or.inr ⟨hloop, hlive, fun he => hj (Act.retire.inj he).symm, id, nofun⟩

/-- A live loop stays live under what spares it. -/
theorem Takes.live_of_spares (ht : l.Takes x l') (hx : x.Spares h s)
    (hloop : l.loops.find? h = some s) (hlive : (l.phase s).liveLoop? = some h) :
    l'.loops.find? h = some s ∧ (l'.phase s).liveLoop? = some h := by
  cases ht with
  | begin e k hp =>
      refine ⟨hloop, ?_⟩
      rw [Ledger.phase, phase_insert l, if_neg fun hs => hx.begins hs.symm]
      exact hlive
  | abort cause e k hp =>
      refine ⟨hloop, ?_⟩
      have hs : s ≠ e.site k := by
        rintro rfl
        rw [hp] at hlive
        cases hlive
      rw [Ledger.phase, phase_insert l, if_neg hs]
      exact hlive
  | abortBridge cause e k hp => exact ⟨hloop, hlive⟩
  | loop e k j ops kind address length hp hn =>
      obtain ⟨hj, hs⟩ := hx.loop j _ rfl
      refine ⟨(FinMap.find?_insert_of_ne hj.symm _).trans hloop, ?_⟩
      rw [Ledger.phase, phase_insert l, if_neg hs.symm]
      exact hlive
  | bridge e parent b i ops address length hs he hp =>
      refine ⟨hloop, ?_⟩
      rw [Ledger.phase, phase_insert l]
      split_ifs with hst
      · obtain ⟨hold, -, rfl⟩ := bridgedPhase_eq_ok_iff.1 hp
        rw [← hst, hlive] at hold
        exact hold.symm
      · exact hlive
  | retireBridge hb => exact ⟨hloop, hlive⟩
  | @retireLoop j t hb hs hp =>
      have hj : h ≠ j := fun he => hx.retire (he ▸ rfl)
      refine ⟨(FinMap.find?_erase_of_ne hj).trans hloop, ?_⟩
      have hst : s ≠ t := by
        rintro rfl
        exact hj (Option.some.inj (hlive.symm.trans hp))
      rw [Ledger.phase, phase_insert l, if_neg hst]
      exact hlive
  | retireReplaced hb hs hp =>
      have hj : h ≠ _ := fun he => hx.retire (he ▸ rfl)
      exact ⟨(FinMap.find?_erase_of_ne hj).trans hloop, hlive⟩

theorem Takes.live_of_loop? (ht : l.Takes a l') (ha : a.loop? = some (h, s)) :
    l'.loops.find? h = some s ∧ (l'.phase s).liveLoop? = some h := by
  cases ht with
  | loop e k j ops kind address length hp hn =>
      cases ha
      refine ⟨(FinMap.find?_insert _ _ _ _).trans (if_pos rfl), ?_⟩
      rw [Ledger.phase, phase_insert l, if_pos rfl]
      rfl
  | _ => cases ha

/-- The announced loop that is live in the phase of its site is one that stands. -/
theorem Behind.live_iff (hl : Behind acts l) (ho : LoopsApart acts) :
    l.loops.find? h = some s ∧ (l.phase s).liveLoop? = some h ↔ Stands acts h s := by
  constructor
  · rintro ⟨hloop, hlive⟩
    induction hl with
    | nil => cases hloop
    | @concat acts l l' x hl hx ih =>
        have ho' := ho.of_append
        have hknown := hl.known fun _ ha => ha
        have hb : l.loops.find? h = some s → l.bridges.find? h = none := by
          intro hs
          rw [Option.eq_none_iff_forall_ne_some]
          intro p hp
          obtain ⟨a, ha, hal⟩ := hknown.loop h s hs
          obtain ⟨b, hb, hbl, -⟩ := hknown.bridge h p hp
          exact ho' h (List.mem_filterMap.2 ⟨a, ha, congrArg (Option.map Prod.fst) hal⟩)
            (List.mem_filterMap.2 ⟨b, hb, congrArg (Option.map Prod.fst) hbl⟩)
        rcases hx.spares hb hloop hlive with hx | ⟨hloop, hlive, hx⟩
        · exact stands_of_loop? acts hx
        · exact (ih ho' hloop hlive).concat hx
  · rintro ⟨past, a, rest, rfl, ha, hrest⟩
    clear ho
    induction rest using List.reverseRecOn generalizing l with
    | nil =>
        obtain ⟨l₀, -, ht⟩ := hl.of_concat
        exact ht.live_of_loop? ha
    | append_singleton rest x ih =>
        rw [← List.cons_append, ← List.append_assoc] at hl
        obtain ⟨l₀, hl₀, ht⟩ := hl.of_concat
        obtain ⟨hrest, hx⟩ := List.forall_mem_append.1 hrest
        obtain ⟨hloop, hlive⟩ := ih hl₀ hrest
        exact ht.live_of_spares (hx x List.mem_cons_self) hloop hlive

/-- A bridge is accepted for an announced loop of the entry point that is live and can count it. Its
own handle is not looked at. -/
theorem announceBridge_ok_iff {e : EntryPoint} {parent b : Handle} :
    (∃ l', l.announceBridge e parent b = .ok l') ↔
      ∃ k, l.loops.find? parent = some (e.site k) ∧
        (l.phase (e.site k)).liveLoop? = some parent ∧ (l.phase (e.site k)).Room := by
  constructor
  · rintro ⟨l', hl⟩
    obtain ⟨⟨i, k⟩, p, hs, rfl, hp, -⟩ := announceBridge_eq_ok_iff.1 hl
    obtain ⟨hlive, hroom, -⟩ := bridgedPhase_eq_ok_iff.1 hp
    exact ⟨k, hs, hlive, hroom⟩
  · rintro ⟨k, hs, hlive, hroom⟩
    have hp := (bridgedPhase_eq_ok_iff (b := b)).2 ⟨hlive, hroom, rfl⟩
    exact ⟨_, announceBridge_eq_ok_iff.2 ⟨_, _, hs, rfl, hp, rfl⟩⟩

end Ledger

end

theorem taken_bridge_iff {s : Shapes × Monitor} {e : EntryPoint} {parent b : Handle} {i : Nat}
    {ops : List Op} {address length : Nat} :
    (Act.report (.bridge e parent b i ops address length)).Taken s = true ↔
      ∃ k, s.2.ledger.loops.find? parent = some (e.site k) ∧
        (s.2.ledger.phase (e.site k)).liveLoop? = some parent ∧
        (s.2.ledger.phase (e.site k)).Room := by
  rw [taken_report_iff, ← Ledger.announceBridge_ok_iff (b := b)]
  exact and_iff_right ⟨s.1, rfl⟩

/-- Every accepted bridge of an entry point comes behind a loop that was accepted for it and that
stands there: since the last time when the loop was announced, it was not retired, and for its key
neither an attempt has begun nor another loop was announced. At any time, a bridge is accepted if and
only if its loop stands and can count one more. -/
theorem bridge_behind_loop {acts : List Act} (shapes : Shapes) (os : List Observer)
    (ho : LoopsApart (taken acts (Monitor.new shapes os))) :
    (∀ past rest e parent b i ops address length, taken acts (Monitor.new shapes os) =
        past ++ .report (.bridge e parent b i ops address length) :: rest →
      ∃ k, Stands past parent (e.site k)) ∧
    ∀ e parent b i ops address length,
      (Act.report (.bridge e parent b i ops address length)).Taken
          (Act.performAll acts (Monitor.new shapes os)) = true ↔
        ∃ k, Stands (taken acts (Monitor.new shapes os)) parent (e.site k) ∧
          ((Act.performAll acts (Monitor.new shapes os)).2.ledger.phase (e.site k)).Room := by
  have hl := Ledger.behind_new shapes os acts
  constructor
  · intro past rest e parent b i ops address length he
    rw [he] at hl ho
    obtain ⟨l₀, l₁, hl₀, ht⟩ := hl.split
    obtain ⟨k, hloop, hlive, -⟩ :=
      Ledger.announceBridge_ok_iff.1 ⟨l₁, Ledger.takes_report_iff.1 ht⟩
    exact ⟨k, (hl₀.live_iff ho.of_append).1 ⟨hloop, hlive⟩⟩
  · intro e parent b i ops address length
    rw [taken_bridge_iff]
    exact exists_congr fun k => by rw [← hl.live_iff ho, and_assoc]

/-- A loop is replaced by another one, and bridges are tried on both, also in an open attempt. -/
theorem bridge_behind_loop_replaced :
    let e : EntryPoint := ⟨0, "loop", ["n", "m"], ["i"]⟩
    let k : Key := ⟨[.int 1, .int 4]⟩
    let start : Act := .report (.begin e k)
    let loop : Nat → Act := fun h => .report (.loop e k ⟨h⟩ [.label, .jump] .loop 0 0)
    let bridge : Nat → Nat → Act := fun h b => .report (.bridge e ⟨h⟩ ⟨b⟩ 0 [] 0 0)
    let acts := [start, loop 1, bridge 1 2, start, bridge 1 3, loop 4, bridge 1 5, bridge 4 6]
    let told := taken acts (Monitor.new ∅ [])
    let now := (Act.performAll acts (Monitor.new ∅ [])).2.ledger
    LoopsApart told ∧ told = [start, loop 1, bridge 1 2, start, loop 4, bridge 4 6] ∧
      (∃ k, Stands [start, loop 1, bridge 1 2, start, loop 4] ⟨4⟩ (e.site k)) ∧
      (∃ k, Stands told ⟨4⟩ (e.site k) ∧ (now.phase (e.site k)).Room) ∧
      ¬ ∃ k, Stands told ⟨1⟩ (e.site k) ∧ (now.phase (e.site k)).Room := by
  intro e k start loop bridge acts told now
  have htold : told = [start, loop 1, bridge 1 2, start, loop 4, bridge 4 6] := by
    decide +kernel
  have ho : LoopsApart told := by decide +kernel
  obtain ⟨hbehind, hstands⟩ := bridge_behind_loop ∅ [] ho
  refine ⟨ho, htold, ?_, ?_, fun hs => ?_⟩
  · exact hbehind [start, loop 1, bridge 1 2, start, loop 4] [] e ⟨4⟩ ⟨6⟩ 0 [] 0 0 htold
  · exact (hstands e ⟨4⟩ ⟨7⟩ 0 [] 0 0).1 (by decide +kernel)
  · have hno : (bridge 1 7).Taken (Act.performAll acts (Monitor.new ∅ [])) = false := by
      decide +kernel
    rw [(hstands e ⟨1⟩ ⟨7⟩ 0 [] 0 0).2 hs] at hno
    cases hno

end HotLoop.Lifecycle
