import HotLoop.Proofs.Occurrence
import HotLoop.Proofs.Precedence

/-!
# Handles announced again

The ledger forgets what is retired, and it looks a handle up only when a loop is announced under it.
`BridgeKept` and `LoopKept` say of what was accepted which handles it knows. So a handle is refused
just for a loop, and just while it is the handle of a loop that is kept.
-/

namespace HotLoop.Lifecycle

open Trace

def BridgeKept (acts : List Act) (h : Handle) : Prop :=
  ∃ past a rest, acts = past ++ a :: rest ∧ a.bridged? = some h ∧ ∀ x ∈ rest, x ≠ .retire h

/-- The loop `h` was announced. Where `h` was retired since, it was a bridge of this handle. -/
def LoopKept (acts : List Act) (h : Handle) : Prop :=
  ∃ past a rest, acts = past ++ a :: rest ∧ a.compiled? = some h ∧
    ∀ before after, rest = before ++ .retire h :: after → BridgeKept (past ++ a :: before) h

section

variable {acts : List Act} {a x : Act} {l l' : Ledger} {h : Handle}

theorem bridgeKept_concat_iff :
    BridgeKept (acts ++ [x]) h ↔ x.bridged? = some h ∨ BridgeKept acts h ∧ x ≠ .retire h := by
  constructor
  · rintro ⟨past, a, rest, he, ha, hrest⟩
    rcases split_concat he with ⟨-, rfl, -⟩ | ⟨rest', rfl, hacts⟩
    · exact Or.inl ha
    · obtain ⟨hrest, hx⟩ := List.forall_mem_append.1 hrest
      exact Or.inr ⟨⟨past, a, rest', hacts, ha, hrest⟩, hx x List.mem_cons_self⟩
  · rintro (hx | ⟨⟨past, a, rest, he, ha, hrest⟩, hx⟩)
    · exact ⟨acts, x, [], rfl, hx, List.forall_mem_nil _⟩
    · exact ⟨past, a, rest ++ [x], concat_eq he, ha, forall_mem_concat hrest hx⟩

theorem loopKept_concat_iff : LoopKept (acts ++ [x]) h ↔
    x.compiled? = some h ∨ LoopKept acts h ∧ (x = .retire h → BridgeKept acts h) := by
  constructor
  · rintro ⟨past, a, rest, he, ha, hrest⟩
    rcases split_concat he with ⟨-, rfl, -⟩ | ⟨rest', rfl, hacts⟩
    · exact Or.inl ha
    · refine Or.inr ⟨⟨past, a, rest', hacts, ha, fun before after hb => ?_⟩, ?_⟩
      · exact hrest before (after ++ [x]) (concat_eq hb)
      · rintro rfl
        rw [hacts]
        exact hrest rest' [] rfl
  · rintro (hx | ⟨⟨past, a, rest, he, ha, hrest⟩, hx⟩)
    · exact ⟨acts, x, [], rfl, hx, fun before after hb => by simp at hb⟩
    · refine ⟨past, a, rest ++ [x], concat_eq he, ha, fun before after hb => ?_⟩
      rcases split_concat hb with ⟨rfl, hxr, -⟩ | ⟨after', -, hb'⟩
      · rw [← he]
        exact hx hxr.symm
      · exact hrest before after' hb'

namespace Ledger

/-- A handle that is retired is forgotten as a bridge, or else as a loop. -/
theorem Takes.forgets {j : Handle} (ht : l.Takes (.retire j) l') :
    (∃ p, l.bridges.find? j = some p) ∧ l'.bridges = l.bridges.erase j ∧ l'.loops = l.loops ∨
      l.bridges.find? j = none ∧ l'.bridges = l.bridges ∧ l'.loops = l.loops.erase j := by
  cases ht with
  | retireBridge hb => exact Or.inl ⟨⟨_, hb⟩, rfl, rfl⟩
  | retireLoop hb hs hp => exact Or.inr ⟨hb, rfl, rfl⟩
  | retireReplaced hb hs hp => exact Or.inr ⟨hb, rfl, rfl⟩

theorem Takes.bridge_known_iff (ht : l.Takes x l') : (∃ p, l'.bridges.find? h = some p) ↔
    x.bridged? = some h ∨ (∃ p, l.bridges.find? h = some p) ∧ x ≠ .retire h := by
  cases x with
  | retire j =>
      simp only [Act.bridged?, Act.bridge?, Option.map_none, reduceCtorEq, false_or, ne_eq,
        Act.retire.injEq]
      rcases ht.forgets with ⟨-, hb, -⟩ | ⟨hn, hb, -⟩
      · rw [hb, FinMap.find?_erase]
        by_cases hj : h = j
        · simp [hj]
        · simp [hj, Ne.symm hj]
      · rw [hb, iff_self_and]
        rintro ⟨p, hp⟩ rfl
        rw [hn] at hp
        cases hp
  | report r =>
      cases ht with
      | bridge e parent b i ops address length hs he hp =>
          rw [FinMap.find?_insert]
          by_cases hb : h = b
          · simp [hb, Act.bridged?, Act.bridge?]
          · simp [hb, Ne.symm hb, Act.bridged?, Act.bridge?]
      | _ => simp [Act.bridged?, Act.bridge?]

theorem Takes.loop_known_iff (ht : l.Takes x l') : (∃ s, l'.loops.find? h = some s) ↔
    x.compiled? = some h ∨
      (∃ s, l.loops.find? h = some s) ∧ (x = .retire h → ∃ p, l.bridges.find? h = some p) := by
  cases x with
  | retire j =>
      simp only [Act.compiled?, Act.loop?, Option.map_none, reduceCtorEq, false_or,
        Act.retire.injEq]
      rcases ht.forgets with ⟨hp, -, hl⟩ | ⟨hn, -, hl⟩
      · rw [hl, iff_self_and]
        rintro - rfl
        exact hp
      · rw [hl, FinMap.find?_erase]
        by_cases hj : h = j
        · simp [hj, hn]
        · simp [hj, Ne.symm hj]
  | report r =>
      cases ht with
      | loop e k j ops kind address length hp hn =>
          rw [FinMap.find?_insert]
          by_cases hj : h = j
          · simp [hj, Act.compiled?, Act.loop?]
          · simp [hj, Ne.symm hj, Act.compiled?, Act.loop?]
      | _ => simp [Act.compiled?, Act.loop?]

theorem Behind.bridgeKept_iff (hl : Behind acts l) :
    (∃ p, l.bridges.find? h = some p) ↔ BridgeKept acts h := by
  induction hl with
  | nil => exact iff_of_false nofun fun ⟨past, a, rest, he, _⟩ => by simp at he
  | concat hl hx ih => rw [hx.bridge_known_iff, ih, bridgeKept_concat_iff]

theorem Behind.loopKept_iff (hl : Behind acts l) :
    (∃ s, l.loops.find? h = some s) ↔ LoopKept acts h := by
  induction hl with
  | nil => exact iff_of_false nofun fun ⟨past, a, rest, he, _⟩ => by simp at he
  | concat hl hx ih => rw [hx.loop_known_iff, ih, hl.bridgeKept_iff, loopKept_concat_iff]

end Ledger

/-- A loop that was announced, and whose handle was not retired since, is kept. -/
theorem loopKept_of_not_retired {past rest : List Act} (ha : a.compiled? = some h)
    (hrest : .retire h ∉ rest) : LoopKept (past ++ a :: rest) h := by
  refine ⟨past, a, rest, rfl, ha, fun before after he => absurd ?_ hrest⟩
  rw [he]
  exact List.mem_append_right _ List.mem_cons_self

end

theorem taken_loop_iff {s : Shapes × Monitor} {e : EntryPoint} {k : Key} {h : Handle}
    {ops : List Op} {kind : Kind} {address length : Nat} :
    (Act.report (.loop e k h ops kind address length)).Taken s = true ↔
      (∃ shapes, s.1.check e k = .ok shapes) ∧ s.2.ledger.phase (e.site k) = .compiling ∧
        s.2.ledger.loops.find? h = none := by
  rw [taken_report_iff]
  refine and_congr_right fun _ => ⟨?_, fun ⟨hp, hn⟩ => ?_⟩
  · rintro ⟨l, hl⟩
    obtain ⟨hp, hn, -⟩ := Ledger.announceLoop_eq_ok_iff.1 hl
    exact ⟨hp, hn⟩
  · exact ⟨_, Ledger.announceLoop_eq_ok_iff.2 ⟨hp, hn, rfl⟩⟩

/-- Which handles are refused. In an open attempt, a loop is refused just while its handle is the one
of a loop that is kept, and between two loops of one handle it was retired. For a bridge only its
loop decides: it is accepted under every handle, or under none. -/
theorem refused_handles (shapes : Shapes) (os : List Observer) (acts : List Act) :
    let told := taken acts (Monitor.new shapes os)
    let now := Act.performAll acts (Monitor.new shapes os)
    (∀ e k h ops kind address length,
      (Act.report (.loop e k h ops kind address length)).Taken now = true ↔
        (∃ shapes', now.1.check e k = .ok shapes') ∧
          now.2.ledger.phase (e.site k) = .compiling ∧ ¬ LoopKept told h) ∧
    (∀ past x between y rest h, told = past ++ x :: (between ++ y :: rest) →
      x.compiled? = some h → y.compiled? = some h → .retire h ∈ between) ∧
    ∀ e parent b i ops address length,
      (Act.report (.bridge e parent b i ops address length)).Taken now = true ↔
        ∃ k, now.2.ledger.loops.find? parent = some (e.site k) ∧
          (now.2.ledger.phase (e.site k)).liveLoop? = some parent ∧
          (now.2.ledger.phase (e.site k)).Room := by
  intro told now
  have hl : Ledger.Behind told now.2.ledger := Ledger.behind_new shapes os acts
  refine ⟨fun e k h ops kind address length => ?_, fun past x between y rest h he hx hy => ?_,
    fun e parent b i ops address length => taken_bridge_iff⟩
  · rw [taken_loop_iff, ← hl.loopKept_iff, Option.eq_none_iff_forall_ne_some, not_exists]
  · by_contra hbetween
    rw [he, ← List.cons_append, ← List.append_assoc] at hl
    obtain ⟨l₀, l₁, hl₀, ht⟩ := hl.split
    obtain ⟨s, hs⟩ := hl₀.loopKept_iff.2 (loopKept_of_not_retired hx hbetween)
    cases ht with
    | loop e k j ops kind address length hp hn =>
        obtain rfl := Option.some.inj hy
        rw [hn] at hs
        cases hs
    | _ => cases hy

/-- A retired loop and a live bridge are announced once more, and both are accepted. -/
theorem handles_announced_again :
    let e : EntryPoint := ⟨0, "loop", ["n"], ["i"]⟩
    let k : Key := ⟨[.int 1]⟩
    let loop : Act := .report (.loop e k ⟨1⟩ [.label, .jump] .loop 0 0)
    let bridge : Act := .report (.bridge e ⟨1⟩ ⟨2⟩ 0 [.jump] 0 0)
    let acts := [.report (.begin e k), loop, .retire ⟨1⟩, .report (.begin e k), loop, bridge, bridge]
    ¬ ((taken acts (Monitor.new ∅ [])).filterMap Act.compiled?).Nodup ∧
      ¬ ((taken acts (Monitor.new ∅ [])).filterMap Act.bridged?).Nodup := by
  decide +kernel

end HotLoop.Lifecycle
